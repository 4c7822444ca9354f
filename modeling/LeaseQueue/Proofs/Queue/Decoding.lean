import LeaseQueue.Proofs.Queue.Codec

/-!
# Documents that are read and stored again

Whatever octets a document was read from, it survives being stored: its payloads are in normal form
and nest no deeper than the octets did, so that what is stored of it is read back as the same
document.

  `decode b = .ok d → (∀ j ∈ d.jobs, j.payload.Integral) → decode d.encode = .ok d`

A spec that stands alone may bring a payload two levels deeper than one that stands in a document.
-/

namespace LeaseQueue

open Json

namespace Job

/-- The payload, if there is one yet, nests at most so deep. -/
def Draft.FitsIn (n : Nat) (draft : Draft) : Prop := ∀ v, draft.payload = some v → v.FitsIn n

/-- The payload of a job that is read may nest one level less than the job. -/
theorem format_yields : format.Yields fun depth j => j.payload.FitsIn (depth - 1) := by
  refine Record.yields (Q := Draft.FitsIn) (P := fun n (j : Job) => j.payload.FitsIn n)
    (fun _ _ h => by cases h) ?_ ?_
  · intro field hfield n s draft draft' rest hdraft hread
    simp only [record, List.mem_cons, List.not_mem_nil, or_false] at hfield
    rcases hfield with rfl | rfl | rfl | rfl | rfl | rfl | rfl | rfl | rfl
    -- Only the third field is the payload.
    case inr.inr.inl =>
      obtain ⟨v, hany, rfl⟩ := Field.exists_of_read_eq_ok hread
      rintro _ ⟨⟩
      exact Format.any_yields hany
    all_goals
      obtain ⟨_, -, rfl⟩ := Field.exists_of_read_eq_ok hread
      exact hdraft
  · intro n draft j hdraft hfinish
    have hpayload : j.payload = draft.payload.getD .null := by
      simp only [record, Draft.finish, bind, Except.bind] at hfinish
      repeat' split at hfinish
      all_goals cases hfinish
      rfl
    rw [hpayload]
    cases hdrafted : draft.payload with
    | none => exact fitsIn_null n
    | some v => exact hdraft v hdrafted

end Job

namespace JobSpec

def Draft.FitsIn (n : Nat) (draft : Draft) : Prop := ∀ v, draft.payload = some v → v.FitsIn n

/-- The payload of a spec that is read may nest one level less than the spec. -/
theorem format_yields : format.Yields fun depth s => s.payload.FitsIn (depth - 1) := by
  refine Record.yields (Q := Draft.FitsIn) (P := fun n (s : JobSpec) => s.payload.FitsIn n)
    (fun _ _ h => by cases h) ?_ ?_
  · intro field hfield n s draft draft' rest hdraft hread
    simp only [record, List.mem_cons, List.not_mem_nil, or_false] at hfield
    rcases hfield with rfl | rfl | rfl
    · obtain ⟨v, hany, rfl⟩ := Field.exists_of_read_eq_ok hread
      rintro _ ⟨⟩
      exact Format.any_yields hany
    all_goals
      obtain ⟨_, -, rfl⟩ := Field.exists_of_read_eq_ok hread
      exact hdraft
  · rintro n draft spec hdraft ⟨⟩
    cases hdrafted : draft.payload with
    | none => exact fitsIn_null n
    | some v => exact hdraft v hdrafted

theorem ofJson_toJson {spec : JobSpec} (h : spec.payload.IsPayload) :
    format.ofJson spec.toJson = .ok spec := by
  obtain ⟨payload, jobType, maxAttempts⟩ := spec
  have hany := Job.any_ofJson h
  cases jobType <;> cases maxAttempts <;>
  · simp [format, toJson, Record.format, Record.ofJson, Record.ofMembers, Record.field?, record,
      Json.optional, Field.of, Job.option_text_ofJson, Job.option_uint32_ofJson, hany, Except.map]

theorem lawfulAt_toJson {spec : JobSpec} (h : spec.payload.IsPayload) :
    format.LawfulAt spec.toJson := by
  have known {key : String} {v : Json} {field : Field Draft} (hf : record.field? key = some field)
      (hv : field.LawfulAt v) : record.Knows (key, v) := ⟨field, hf, hv⟩
  apply Record.lawfulAt
  simp only [List.forall_mem_append, List.forall_mem_cons, List.not_mem_nil, false_implies,
    implies_true, and_true]
  refine ⟨⟨?_, ?_⟩, ?_⟩
  · exact known rfl (Field.of_lawfulAt _ _ _ _ (Format.any_lawfulAt h.1))
  · exact Job.forall_mem_optional fun s => known rfl (Field.of_lawfulAt _ _ _ _
      (Format.option_lawfulAt (.str s) (Format.text_lawfulAt (.str s))))
  · exact Job.forall_mem_optional fun n => known rfl (Field.of_lawfulAt _ _ _ _
      (Format.option_lawfulAt (integral_ofUInt32 n) (uint32_lawfulAt n)))

theorem nesting_toJson_le_iff (spec : JobSpec) (n : Nat) :
    spec.toJson.nesting ≤ n + 1 ↔ spec.payload.nesting ≤ n := by
  rw [toJson, nesting, Nat.add_le_add_iff_right, nestingMembers_le_iff]
  simp only [List.forall_mem_append, List.forall_mem_cons, List.not_mem_nil, false_implies,
    implies_true, and_true]
  constructor
  · exact fun h => h.1.1
  · exact fun h => ⟨⟨h, Job.forall_mem_optional fun _ => Nat.zero_le _⟩,
      Job.forall_mem_optional fun _ => Nat.zero_le _⟩

/-- The text of a spec is read back, unless its payload nests deeper than 126. -/
theorem parse_render {spec : JobSpec} (h : spec.payload.IsPayload) :
    format.parse spec.toJson.render =
      if spec.payload.nesting ≤ 126 then .ok spec else .error .malformed := by
  have hdepth : spec.toJson.nesting ≤ Json.maxNesting ↔ _ := nesting_toJson_le_iff spec 126
  simp only [Format.parse_render (lawfulAt_toJson h) (ofJson_toJson h), hdepth]

end JobSpec

namespace Document

/-- The payloads of the jobs, if there are jobs yet, nest at most so deep. -/
def Draft.FitsIn (n : Nat) (draft : Draft) : Prop :=
  ∀ jobs, draft.jobs = some jobs → ∀ j ∈ jobs, j.payload.FitsIn (n - 1 - 1)

theorem format_yields :
    format.Yields fun depth d => ∀ j ∈ d.jobs, j.payload.FitsIn (depth - 1 - 1 - 1) := by
  refine Record.yields (Q := Draft.FitsIn)
    (P := fun n (d : Document) => ∀ j ∈ d.jobs, j.payload.FitsIn (n - 1 - 1))
    (fun _ _ h => by cases h) ?_ ?_
  · intro field hfield n s draft draft' rest hdraft hread
    simp only [record, List.mem_cons, List.not_mem_nil, or_false] at hfield
    rcases hfield with rfl | rfl | rfl | rfl
    case inr.inr.inl =>
      obtain ⟨jobs, hlist, rfl⟩ := Field.exists_of_read_eq_ok hread
      rintro _ ⟨⟩
      exact Format.list_yields Job.format_yields hlist
    all_goals
      obtain ⟨_, -, rfl⟩ := Field.exists_of_read_eq_ok hread
      exact hdraft
  · rintro n draft d hdraft ⟨⟩
    cases hdrafted : draft.jobs with
    | none => exact List.forall_mem_nil _
    | some jobs => exact hdraft jobs hdrafted

theorem fitsIn_of_decode {b : Bytes} {d : Document} (h : decode b = .ok d) :
    ∀ j ∈ d.jobs, j.payload.FitsIn 124 :=
  Format.Yields.of_parse format_yields h

/-- A document that was read is read again from what is stored of it. -/
theorem decode_encode_of_decode {b : Bytes} {d : Document} (h : decode b = .ok d)
    (hintegral : ∀ j ∈ d.jobs, j.payload.Integral) : decode d.encode = .ok d := by
  have hfits := fitsIn_of_decode h
  have hpayloads : d.HasPayloads := fun j hj => ⟨hintegral j hj, (hfits j hj).1⟩
  rw [decode_encode hpayloads, if_pos fun j hj => (hfits j hj).2]

/-- **Storing loses nothing**: a document is read back from what is stored of it exactly if none of
its payloads nests deeper than 124, and those of a document that was read never do. -/
theorem storage_faithful :
    (∀ d : Document, d.HasPayloads → decode d.encode =
      if ∀ j ∈ d.jobs, j.payload.nesting ≤ 124 then .ok d else .error .malformed) ∧
    (∀ (b : Bytes) (d : Document), decode b = .ok d → (∀ j ∈ d.jobs, j.payload.Integral) →
      decode d.encode = .ok d) :=
  ⟨fun _ h => decode_encode h, fun _ _ h hintegral => decode_encode_of_decode h hintegral⟩

/-! ## Deep and rough documents -/

end Document

/-- Arrays inside one another, so many of them. -/
def Json.tower : Nat → Json
  | 0 => .null
  | n + 1 => .arr [tower n]

theorem Json.nesting_tower (n : Nat) : (tower n).nesting = n := by
  induction n with
  | zero => rfl
  | succ n ih =>
    rw [tower, nesting, nestingItems, nestingItems, ih, Nat.max_eq_left (Nat.zero_le n)]

theorem Json.normalize_tower (n : Nat) : (tower n).normalize = tower n := by
  induction n with
  | zero => rfl
  | succ n ih => rw [tower, normalize, normalizeItems, normalizeItems, ih]

theorem Json.isPayload_tower (n : Nat) : (tower n).IsPayload := by
  refine ⟨?_, normalize_tower n⟩
  induction n with
  | zero => exact .null
  | succ n ih => exact .arr (List.forall_mem_singleton.2 ih)

namespace Document

/-- One job with a payload of so many arrays inside one another. -/
def tall (n : Nat) : Document := ⟨none, 0, [.ofSpec ⟨Json.tower n, none, none⟩ "job" 0], 0⟩

theorem hasPayloads_tall (n : Nat) : (tall n).HasPayloads :=
  List.forall_mem_singleton.2 (isPayload_tower n)

/-- A document as an array that ends early, with an unknown field, a lease on an unclaimed job, and
a payload that gives one key twice. -/
def rough : Bytes := Bytes.ofText <| "[\"broker\",-5,[\x7b\"note\":[[]],\"createdAt\":-7," ++
  "\"workerId\":\"gone\",\"status\":\"unclaimed\",\"id\":\"\\u0061\"," ++
  "\"payload\":\x7b\"b\":[1],\"a\":2,\"b\":18446744073709551615\x7d\x7d]]"

/-- What `rough` says. -/
def plain : Document :=
  let payload : Json := .obj [("a", .num (.int 2)), ("b", .num (.int 18446744073709551615))]
  ⟨some "broker", -5, [⟨"a", .unclaimed, payload, none, -7, 0, none⟩], 0⟩

theorem integral_plain : ∀ j ∈ plain.jobs, j.payload.Integral :=
  List.forall_mem_singleton.2 <| .obj <| List.forall_mem_cons.2
    ⟨.int (by decide) (by decide), List.forall_mem_singleton.2 (.int (by decide) (by decide))⟩

theorem storage_faithful_rough :
    decode (tall 124).encode = .ok (tall 124) ∧ decode (tall 125).encode = .error .malformed ∧
      decode rough = .ok plain ∧ decode plain.encode = .ok plain := by
  obtain ⟨hstored, hread⟩ := storage_faithful
  have hdeep (n : Nat) : (∀ j ∈ (tall n).jobs, j.payload.nesting ≤ 124) ↔ n ≤ 124 :=
    List.forall_mem_singleton.trans (by rw [Job.ofSpec, nesting_tower])
  have hrough : decode rough = .ok plain := by
    set_option maxRecDepth 4000 in rfl
  refine ⟨?_, ?_, hrough, hread rough plain hrough integral_plain⟩
  · rw [hstored _ (hasPayloads_tall 124), if_pos ((hdeep 124).2 (by decide))]
  · rw [hstored _ (hasPayloads_tall 125), if_neg fun h => absurd ((hdeep 125).1 h) (by decide)]

end Document

end LeaseQueue
