import LeaseQueue.Proofs.Json.Tagging
import LeaseQueue.Proofs.Queue.Decoding
import LeaseQueue.Proofs.Queue.Payloads

/-!
# Mutations on the wire

A mutation that is written is read back, unless one of its payloads nests too deep:

  `format.parse m.toJson.render =
    if ∀ spec ∈ m.specs, spec.payload.nesting ≤ 124 then .ok m else .error .malformed`

It is the limit of documents: the parts of a mutation are read before anyone knows of what kind it
is, but the object around them takes the level that a document takes, and the list of specs the one
that the list of jobs takes.  So no mutation that was read brings in what a document cannot hold.

  `format.parse b = .ok m → decode b' = .ok d →
    decode (d.apply m now ids).document.encode = .ok (d.apply m now ids).document`
-/

namespace LeaseQueue

open Json

namespace JobSpec

theorem integral_toJson {spec : JobSpec} (h : spec.payload.IsPayload) : spec.toJson.Integral := by
  apply Json.Integral.obj
  simp only [List.forall_mem_append, List.forall_mem_cons, List.not_mem_nil, false_implies,
    implies_true, and_true]
  exact ⟨⟨h.1, Job.forall_mem_optional .str⟩, Job.forall_mem_optional integral_ofUInt32⟩

/-- The payload of a spec that is made of a value nests one level less than the value may. -/
theorem format_derives : Derives format.ofJson fun depth s => s.payload.FitsIn (depth - 1) := by
  refine Record.derives (Q := Draft.FitsIn) (P := fun n (s : JobSpec) => s.payload.FitsIn n)
    (fun _ _ h => by cases h) ?_ ?_
  · intro field hfield n v draft draft' hdraft hv hof
    simp only [record, List.mem_cons, List.not_mem_nil, or_false] at hfield
    rcases hfield with rfl | rfl | rfl
    · obtain ⟨v, hany, rfl⟩ := Field.exists_of_ofJson_eq_ok hof
      rintro _ ⟨⟩
      exact Format.any_derives hv hany
    all_goals
      obtain ⟨_, -, rfl⟩ := Field.exists_of_ofJson_eq_ok hof
      exact hdraft
  · rintro n draft spec hdraft ⟨⟩
    cases hdrafted : draft.payload with
    | none => exact fitsIn_null n
    | some v => exact hdraft v hdrafted

end JobSpec

namespace Mutation

/-! ## What is written is read -/

theorem kind_ofJson (k : Kind) : Kind.format.ofJson (.str k.text) = .ok k := by
  cases k <;> rfl

theorem texts_ofJson (types : List String) :
    (Format.list .text).ofJson (.arr (types.map .str)) = .ok types :=
  Document.mapM_map_ok fun type _ => Job.text_ofJson type

theorem specs_ofJson {specs : List JobSpec} (h : ∀ spec ∈ specs, spec.payload.IsPayload) :
    (Format.list JobSpec.format).ofJson (.arr (specs.map JobSpec.toJson)) = .ok specs :=
  Document.mapM_map_ok fun spec hspec => JobSpec.ofJson_toJson (h spec hspec)

theorem ofContent_members {m : Mutation} (h : m.HasPayloads) :
    ofContent m.kind (.obj m.members) = .ok m := by
  cases m with
  | enqueue specs =>
    simp [ofContent, kind, members, enqueueRecord, Record.ofJson, Record.ofMembers, Record.field?,
      Field.of, specs_ofJson h, Except.map, require, bind, Except.bind, pure, Except.pure]
  | claim worker types =>
    simp [ofContent, kind, members, claimRecord, Record.ofJson, Record.ofMembers, Record.field?,
      Field.of, Job.text_ofJson, texts_ofJson, Except.map, require, bind, Except.bind, pure,
      Except.pure]
  | heartbeat job worker | complete job worker =>
    simp [ofContent, kind, members, leaseRecord, Record.ofJson, Record.ofMembers, Record.field?,
      Field.of, Job.text_ofJson, Except.map, require, bind, Except.bind, pure, Except.pure]
  | registerBroker address timestamp | renewBroker address timestamp =>
    simp [ofContent, kind, members, brokerRecord, Record.ofJson, Record.ofMembers, Record.field?,
      Field.of, Job.text_ofJson, int64_ofJson, Except.map, require, bind, Except.bind, pure,
      Except.pure]

/-- No part of a mutation is taken for the member that names its kind. -/
theorem key_ne_of_mem_members {m : Mutation} : ∀ p ∈ m.members, p.1 ≠ tagged.key := by
  cases m <;> simp [members, tagged]

theorem ofJson_toJson {m : Mutation} (h : m.HasPayloads) : format.ofJson m.toJson = .ok m :=
  (Tagged.ofJson_obj (t := tagged) (kind_ofJson m.kind) key_ne_of_mem_members).trans
    (ofContent_members h)

theorem integral_of_mem_members {m : Mutation} (h : m.HasPayloads) :
    ∀ p ∈ m.members, p.2.Integral := by
  cases m with
  | enqueue specs =>
    refine List.forall_mem_singleton.2 (.arr (List.forall_mem_map.2 fun spec hspec => ?_))
    exact JobSpec.integral_toJson (h spec hspec)
  | claim worker types =>
    refine List.forall_mem_cons.2 ⟨.str _, List.forall_mem_singleton.2 (.arr ?_)⟩
    exact List.forall_mem_map.2 fun type _ => .str type
  | heartbeat job worker | complete job worker =>
    exact List.forall_mem_cons.2 ⟨.str _, List.forall_mem_singleton.2 (.str _)⟩
  | registerBroker address timestamp | renewBroker address timestamp =>
    exact List.forall_mem_cons.2 ⟨.str _, List.forall_mem_singleton.2 (integral_ofInt64 _)⟩

theorem lawfulAt_toJson {m : Mutation} (h : m.HasPayloads) : format.LawfulAt m.toJson := by
  refine Tagged.lawfulAt (List.forall_mem_cons.2 ⟨?_, fun p hp => ?_⟩)
  · rw [Tagged.Knows, if_pos (show "type" = tagged.key from rfl)]
    exact Format.name_lawfulAt _ (.str _)
  · rw [Tagged.Knows, if_neg (key_ne_of_mem_members p hp)]
    exact integral_of_mem_members h p hp

theorem nesting_toJson_le_iff (m : Mutation) (n : Nat) :
    m.toJson.nesting ≤ n + 3 ↔ ∀ spec ∈ m.specs, spec.payload.nesting ≤ n := by
  rw [toJson, nesting, Nat.add_le_add_iff_right, nestingMembers_le_iff]
  cases m with
  | enqueue jobs =>
    simp only [members, specs, List.forall_mem_cons, List.not_mem_nil, false_implies, implies_true,
      and_true, nesting, Nat.zero_le, true_and, Nat.add_le_add_iff_right, nestingItems_le_iff,
      List.forall_mem_map, JobSpec.nesting_toJson_le_iff]
  | claim worker types =>
    simp [members, specs, nesting, nestingItems_le_iff]
  | heartbeat | complete | registerBroker | renewBroker =>
    simp [members, specs, nesting, ofInt64]

/-- **What is written is read back**, unless a payload nests too deep. -/
theorem parse_render {m : Mutation} (h : m.HasPayloads) :
    format.parse m.toJson.render =
      if ∀ spec ∈ m.specs, spec.payload.nesting ≤ 124 then .ok m else .error .malformed := by
  have hdepth : m.toJson.nesting ≤ Json.maxNesting ↔ _ := nesting_toJson_le_iff m 124
  simp only [Format.parse_render (lawfulAt_toJson h) (ofJson_toJson h), hdepth]

/-! ## What is read fits into a document -/

/-- What a mutation brings in if it is made of a value of at most this depth. -/
def FitsIn (n : Nat) (m : Mutation) : Prop := ∀ spec ∈ m.specs, spec.payload.FitsIn (n - 1 - 1)

theorem enqueueRecord_derives :
    Derives enqueueRecord.ofJson fun depth m => m.FitsIn (depth - 1) := by
  refine Record.derives (P := FitsIn) (Q := fun n draft =>
      ∀ specs, draft = some specs → ∀ spec ∈ specs, spec.payload.FitsIn (n - 1 - 1))
    (fun _ _ h => by cases h) ?_ ?_
  · intro field hfield n v draft draft' hdraft hv hof
    obtain rfl := List.mem_singleton.1 hfield
    obtain ⟨specs, hspecs, rfl⟩ := Field.exists_of_ofJson_eq_ok hof
    rintro _ ⟨⟩
    exact Format.list_derives JobSpec.format_derives hv hspecs
  · intro n draft m hdraft hfinish
    cases draft with
    | none => cases hfinish
    | some specs =>
      cases hfinish
      exact hdraft specs rfl

/-- A record that brings in nothing brings in nothing deep. -/
theorem derives_of_specs_eq_nil {σ : Type} {r : Record σ Mutation}
    (h : ∀ {draft m}, r.finish draft = .ok m → m.specs = []) :
    Derives r.ofJson fun depth m => m.FitsIn (depth - 1) := by
  refine Record.derives (Q := fun _ _ => True) (P := FitsIn) (fun _ => trivial)
    (fun _ _ _ _ _ _ _ _ _ => trivial) fun n draft m _ hfinish spec hspec => ?_
  rw [h hfinish] at hspec
  cases hspec

theorem leaseRecord_derives {title : String} {mutation : JobId → WorkerId → Mutation}
    (h : ∀ job worker, (mutation job worker).specs = []) :
    Derives (leaseRecord title mutation).ofJson fun depth m => m.FitsIn (depth - 1) := by
  refine derives_of_specs_eq_nil fun {draft m} hfinish => ?_
  obtain ⟨_ | job, _ | worker⟩ := draft <;> cases hfinish
  exact h job worker

theorem brokerRecord_derives {title : String} {mutation : String → Millis → Mutation}
    (h : ∀ address timestamp, (mutation address timestamp).specs = []) :
    Derives (brokerRecord title mutation).ofJson fun depth m => m.FitsIn (depth - 1) := by
  refine derives_of_specs_eq_nil fun {draft m} hfinish => ?_
  obtain ⟨_ | address, _ | timestamp⟩ := draft <;> cases hfinish
  exact h address timestamp

theorem ofContent_derives (k : Kind) :
    Derives (ofContent k) fun depth m => m.FitsIn (depth - 1) := by
  cases k with
  | enqueue => exact enqueueRecord_derives
  | claim =>
    refine derives_of_specs_eq_nil fun {draft m} hfinish => ?_
    obtain ⟨_ | worker, types⟩ := draft <;> cases hfinish
    rfl
  | heartbeat | complete => exact leaseRecord_derives fun _ _ => rfl
  | registerBroker | renewBroker => exact brokerRecord_derives fun _ _ => rfl

theorem format_yields : format.Yields fun depth m => m.FitsIn (depth - 1) :=
  Tagged.yields (t := tagged) fun k => ofContent_derives k

/-- No mutation that was read, as an object or as an array, brings in what nests too deep. -/
theorem fitsIn_of_parse {b : Bytes} {m : Mutation} (h : format.parse b = .ok m) :
    ∀ spec ∈ m.specs, spec.payload.FitsIn 124 :=
  Format.Yields.of_parse format_yields h

/-- What is made of a document that was read by a mutation that was read is read back from what is
stored of it. -/
theorem decode_encode_apply {b c : Bytes} {m : Mutation} {d : Document}
    (hm : format.parse b = .ok m) (hspecs : ∀ spec ∈ m.specs, spec.payload.Integral)
    (hd : Document.decode c = .ok d) (hjobs : ∀ j ∈ d.jobs, j.payload.Integral) (now : Millis)
    (ids : IdSupply) :
    Document.decode (d.apply m now ids).document.encode = .ok (d.apply m now ids).document := by
  have hintegral := Document.forall_payloads_turn hjobs (t := .mutate m now ids) hspecs
  have hfits : ∀ j ∈ (d.apply m now ids).document.jobs, j.payload.FitsIn 124 :=
    Document.forall_payloads_turn (P := fun v => v.FitsIn 124) (Document.fitsIn_of_decode hd)
      (t := .mutate m now ids) (fitsIn_of_parse hm)
  have hpayloads : (d.apply m now ids).document.HasPayloads := fun j hj =>
    ⟨hintegral j hj, (hfits j hj).1⟩
  rw [Document.decode_encode hpayloads, if_pos fun j hj => (hfits j hj).2]

/-- **The wire is faithful and admits no more than documents do.**  A mutation is read back from
what is written of it exactly if none of its payloads nests deeper than 124.  Those of a mutation
that was read never do, so that what it makes of a document that was read can be stored and read
again. -/
theorem wire_faithful :
    (∀ m : Mutation, m.HasPayloads → format.parse m.toJson.render =
      if ∀ spec ∈ m.specs, spec.payload.nesting ≤ 124 then .ok m else .error .malformed) ∧
    ∀ (b : Bytes) (m : Mutation), format.parse b = .ok m →
      (∀ spec ∈ m.specs, spec.payload.Integral) →
      ∀ (c : Bytes) (d : Document), Document.decode c = .ok d →
        (∀ j ∈ d.jobs, j.payload.Integral) → ∀ (now : Millis) (ids : IdSupply),
          Document.decode (d.apply m now ids).document.encode =
            .ok (d.apply m now ids).document :=
  ⟨fun _ h => parse_render h, fun _ _ hm hspecs _ _ hd hjobs now ids =>
    decode_encode_apply hm hspecs hd hjobs now ids⟩

/-! ## Deep and rough mutations -/

/-- One spec with a payload of so many arrays inside one another. -/
def tall (n : Nat) : Mutation := .enqueue [⟨Json.tower n, none, none⟩]

theorem hasPayloads_tall (n : Nat) : (tall n).HasPayloads :=
  List.forall_mem_singleton.2 (isPayload_tower n)

/-- A mutation as an array, its only spec an array that ends early, with a payload that gives one
key twice. -/
def rough : Bytes := Bytes.ofText <| "[\"enqueue\",[[\x7b\"b\":[1],\"a\":2,\"b\":-3\x7d]]]"

/-- What `rough` says. -/
def plain : Mutation :=
  .enqueue [⟨.obj [("a", .num (.int 2)), ("b", .num (.int (-3)))], none, none⟩]

theorem integral_plain : ∀ spec ∈ plain.specs, spec.payload.Integral :=
  List.forall_mem_singleton.2 <| .obj <| List.forall_mem_cons.2
    ⟨.int (by decide) (by decide), List.forall_mem_singleton.2 (.int (by decide) (by decide))⟩

theorem wire_faithful_rough :
    format.parse (tall 124).toJson.render = .ok (tall 124) ∧
      format.parse (tall 125).toJson.render = .error .malformed ∧
      format.parse rough = .ok plain ∧
      let d := (Document.plain.apply plain 5 ⟨fun _ => "b", 0⟩).document
      d.jobs.length = 2 ∧ Document.decode d.encode = .ok d := by
  obtain ⟨hwritten, hread⟩ := wire_faithful
  have hdeep (n : Nat) : (∀ spec ∈ (tall n).specs, spec.payload.nesting ≤ 124) ↔ n ≤ 124 :=
    List.forall_mem_singleton.trans (by rw [nesting_tower])
  have hrough : format.parse rough = .ok plain := by
    set_option maxRecDepth 4000 in rfl
  have hstored : Document.decode Document.rough = .ok Document.plain := by
    set_option maxRecDepth 4000 in rfl
  refine ⟨?_, ?_, hrough, rfl, ?_⟩
  · rw [hwritten _ (hasPayloads_tall 124), if_pos ((hdeep 124).2 (by decide))]
  · rw [hwritten _ (hasPayloads_tall 125), if_neg fun h => absurd ((hdeep 125).1 h) (by decide)]
  · exact hread rough plain hrough integral_plain Document.rough Document.plain hstored
      Document.integral_plain 5 ⟨fun _ => "b", 0⟩

end Mutation

end LeaseQueue
