import LeaseQueue.Proofs.Cluster.Rosters
import LeaseQueue.Proofs.Cluster.Succession
import LeaseQueue.Proofs.Queue.Decoding

/-!
# Documents that stay readable

A spec that stands alone may bring a payload that nests two levels deeper than a reader of documents
admits.  An engine takes such a spec, stores it and caches it, and whoever reads the document after
that fails.  This is the only way in which a document becomes unreadable:

  `Document.decode d.encode =
    if ∀ j ∈ d.jobs, j.payload.nesting ≤ 124 then .ok d else .error .malformed`

for every document `d` that is stored in a run of engines, elections and brokers, and as long as no
payload of more than 124 levels is submitted, nobody gets anything that cannot be read.
-/

namespace LeaseQueue

/-- A payload of at most so many levels. -/
def Json.IsPayloadWithin (n : Nat) (v : Json) : Prop := v.IsPayload ∧ v.nesting ≤ n

def Document.IsWithin (n : Nat) (d : Document) : Prop :=
  ∀ j ∈ d.jobs, j.payload.IsPayloadWithin n

theorem Document.IsWithin.hasPayloads {n : Nat} {d : Document} (h : d.IsWithin n) :
    d.HasPayloads := fun j hj => (h j hj).1

theorem Document.IsWithin.nesting_le {n : Nat} {d : Document} (h : d.IsWithin n) :
    ∀ j ∈ d.jobs, j.payload.nesting ≤ n := fun j hj => (h j hj).2

/-- Documents with payloads of at most so many levels are got back as they are, if at all. -/
def Cluster.within (n : Nat) : Recall where
  fit := Document.IsWithin n
  fits m := ∀ spec ∈ m.specs, spec.payload.IsPayloadWithin n
  agree := Eq
  refl _ := rfl
  decode hfit hdecode := (Document.eq_of_decode_encode hfit.hasPayloads hdecode).symm
  fit_of_agree hfit hagree := hagree ▸ hfit
  fit_empty := List.forall_mem_nil _
  fit_registerBroker _ _ hfit := hfit
  fits_registerBroker _ _ := List.forall_mem_nil _
  fits_renewBroker _ _ := List.forall_mem_nil _
  fit_pass now timeout ids hfit hfits :=
    Document.forall_payloads_pass (P := Json.IsPayloadWithin n) hfit hfits now timeout ids

/-- The specs of the mutation are read from texts of their own, without doubles. -/
def Mutation.IsSpelled (m : Mutation) : Prop :=
  ∀ spec ∈ m.specs, (∃ text, JobSpec.format.parse text = .ok spec) ∧ spec.payload.Integral

theorem JobSpec.fitsIn_of_parse {spec : JobSpec} {text : Bytes} (h : format.parse text = .ok spec) :
    spec.payload.FitsIn 126 := by
  unfold Format.parse Json.whole at h
  split at h
  · cases h
  next hread =>
    split at h
    · cases h
      exact format_yields hread
    · cases h

/-- A spec with a payload of so many levels. -/
def JobSpec.tall (n : Nat) : JobSpec := ⟨.tower n, none, none⟩

theorem JobSpec.parse_tall {n : Nat} (h : n ≤ 126) :
    format.parse (tall n).toJson.render = .ok (tall n) := by
  have hpayload : (tall n).payload.IsPayload := Json.isPayload_tower n
  have hnesting : (tall n).payload.nesting = n := Json.nesting_tower n
  rw [parse_render hpayload, if_pos (hnesting.trans_le h)]

namespace Cluster

variable {R : Recall} {key : String} {c : Cluster} {hist : List Revision}

/-! ## What lands -/

/-- What lands under the key is a document that is fit, or can be read as one. -/
def Lands (R : Recall) (key : String) (document : Option Document) {a : Store.Access} :
    Store.Call a → Store.Answer a → Prop
  | .read k, answer => k = key → ∀ object, answer = .ok (some object) →
    ∃ d, Holds object.data d ∧ R.fit d
  | .write k data _, answer => k = key → ∀ token, answer = .ok token →
    ∃ d, document = some d ∧ data = d.encode ∧ R.fit d
  | .create k data, answer => k = key → ∀ token, answer = .ok token →
    ∃ d, document = some d ∧ data = d.encode ∧ R.fit d

theorem Traced.lands (h : Traced R key c hist) {i : ProcId} {a : Store.Access} {caller : Caller a}
    {failure : Option Store.Error} (hq : c.procs[i]? = some (.awaiting caller (.sent failure))) :
    Lands R key caller.document? (c.callOf caller)
      (c.memory.finish ⟨c.callOf caller, failure⟩).1 := by
  have hcaller : CallerKnown R key c hist caller := h.procs _ (List.mem_of_getElem? hq)
  cases a with
  | read =>
    generalize c.callOf caller = call
    cases call with
    | read k =>
      rintro rfl object hobject
      obtain ⟨entry, hentry, rfl⟩ := (Store.Memory.finish_read c.memory k failure).2 object hobject
      rw [h.current] at hentry
      obtain ⟨r, hr, rfl⟩ := List.mem_map.1 (List.mem_of_mem_head? hentry)
      obtain ⟨hholds, hfit⟩ := h.holds r hr
      exact ⟨r.document, hholds, hfit⟩
  | put =>
    have hput (hkey : (c.callOf caller).key = key) (token : Store.Token)
        (htoken : (c.memory.finish ⟨c.callOf caller, failure⟩).1 = .ok token) :
        ∃ d, caller.document? = some d ∧ Store.Memory.payload (c.callOf caller) = d.encode ∧
          R.fit d := by
      rcases Store.Memory.finish_put c.memory (c.callOf caller) failure with
        ⟨cause, hfinish⟩ | ⟨hadmits, -⟩
      · rw [hfinish] at htoken
        cases htoken
      · obtain ⟨d, hdocument, hpayload, hfit, -⟩ := h.put_follows hcaller hkey hadmits
        exact ⟨d, hdocument, hpayload, hfit⟩
    revert hput
    generalize (c.memory.finish ⟨c.callOf caller, failure⟩).1 = answer
    cases c.callOf caller <;> exact id

/-- All that has landed under the key was fit. -/
def AllLand (R : Recall) (key : String) (c : Cluster) : Prop :=
  ∀ time (a : Store.Access) (caller : Caller a) call answer,
    .landed time caller call answer ∈ c.log → Lands R key caller.document? call answer

theorem mem_landings {time : Millis} {a : Store.Access} {caller : Caller a} {call : Store.Call a}
    {answer : Store.Answer a} : .landed time caller call answer ∈ c.background.landings ↔
      .landed time caller call answer ∈ c.log :=
  List.mem_filter.trans (and_iff_left rfl)

theorem AllLand.step (h : AllLand R key c) (htraced : Traced R key c hist) (act : Act) :
    AllLand R key (c.step act) := by
  intro time a caller call answer hmem
  rcases act.land_or with ⟨i, rfl⟩ | hne
  · rcases land_cases c i with heq | ⟨a', caller', failure, hq, heq⟩
    · rw [Cluster.step, heq] at hmem
      exact h _ _ _ _ _ hmem
    · rw [Cluster.step, heq] at hmem
      rcases List.mem_cons.1 hmem with hnew | hold
      · cases hnew
        exact htraced.lands hq
      · exact h _ _ _ _ _ hold
  · rw [← mem_landings, background_step c act hne, mem_landings] at hmem
    exact h _ _ _ _ _ hmem

theorem AllLand.run (h : AllLand R key c) (htraced : Traced R key c hist) {acts : List Act}
    (hacts : ∀ act ∈ acts, act.Respects R key) : AllLand R key (c.run acts) := by
  induction acts generalizing c hist with
  | nil => exact h
  | cons act acts ih =>
    obtain ⟨hact, hrest⟩ := List.forall_mem_cons.1 hacts
    obtain ⟨new, hstep, -⟩ := htraced.step hact
    exact ih (h.step htraced act) hstep hrest

/-! ## What is read -/

theorem Holds.decode_eq {data : Bytes} {d : Document} (h : Holds data d) (hd : d.HasPayloads) :
    Document.decode data =
      if ∀ j ∈ d.jobs, j.payload.nesting ≤ 124 then .ok d else .error .malformed := by
  rcases h with rfl | hdecode
  · exact Document.decode_encode hd
  · rw [hdecode, if_pos fun j hj => (Document.fitsIn_of_decode hdecode j hj).2]

/-- Whoever gets this answer does not fail to read it. -/
structure IsReadable (answer : Store.Answer .read) : Prop where
  received : ∀ key cause, Engine.received key answer ≠ .error (.codec cause)
  looking : ∀ (election : Election) now cause,
    election.resume (.looking now) answer ≠ .done (.error (.codec cause))
  leads : ∀ (election : Election) cause, election.leads answer ≠ .error (.codec cause)

theorem isReadable_of_decode {answer : Store.Answer .read}
    (h : ∀ object, answer = .ok (some object) → ∃ d, Document.decode object.data = .ok d) :
    IsReadable answer := by
  cases answer with
  | error cause =>
    refine ⟨fun _ _ hfail => ?_, fun _ _ _ hfail => ?_, fun _ _ hfail => ?_⟩ <;> cases hfail
  | ok found =>
    cases found with
    | none =>
      refine ⟨fun _ _ hfail => ?_, fun _ _ _ hfail => ?_, fun _ _ hfail => ?_⟩ <;> cases hfail
    | some object =>
      obtain ⟨d, hd⟩ := h object rfl
      refine ⟨fun key cause hfail => ?_, fun election now cause hfail => ?_,
        fun election cause hfail => ?_⟩
      · simp only [Engine.received, hd] at hfail
        cases hfail
      · simp only [Election.resume, hd] at hfail
        unfold Election.consider at hfail
        -- Whatever the election makes of the document, it is not an error of reading.
        repeat' split at hfail
        all_goals cases hfail
      · simp only [Election.leads, hd] at hfail
        cases hfail

/-- What is stored under a key is what was meant, unless it nests too deep to be read. -/
structure Legible (key : String) (c : Cluster) : Prop where
  /-- What a put stores is read back as the document of its caller, unless a payload in it nests
  deeper than 124; none nests deeper than 126. -/
  written {time} {caller : Caller .put} {call token}
    (h : .landed time caller call (.ok token) ∈ c.log) (hkey : call.key = key) :
    ∃ d, caller.document? = some d ∧ Store.Memory.payload call = d.encode ∧
      (∀ j ∈ d.jobs, j.payload.nesting ≤ 126) ∧ Document.decode d.encode =
        if ∀ j ∈ d.jobs, j.payload.nesting ≤ 124 then .ok d else .error .malformed
  /-- So is the document that an engine has cached, while the store holds it under this token. -/
  cached {e cached entry} (hkey : (c.engines e).options.stateKey = key)
    (hcached : (c.engines e).cache = some cached) (hentry : c.memory.entry? key = some entry)
    (hcurrent : Store.Memory.parseVersion? cached.token = some entry.version) :
    Document.decode entry.data = if ∀ j ∈ cached.document.jobs, j.payload.nesting ≤ 124 then
      .ok cached.document else .error .malformed

/-- Nobody who reads what is under the key fails to. -/
def Readable (key : String) (c : Cluster) : Prop :=
  ∀ time (caller : Caller .read) answer, .landed time caller (.read key) answer ∈ c.log →
    IsReadable answer

theorem Traced.legible (h : Traced (within 126) key c hist) (hall : AllLand (within 126) key c) :
    Legible key c where
  written := by
    intro time caller call token hmem hkey
    have hlands := hall _ _ _ _ _ hmem
    have hput : ∃ d : Document, caller.document? = some d ∧
        Store.Memory.payload call = d.encode ∧ d.IsWithin 126 := by
      cases call <;> exact hlands hkey token rfl
    obtain ⟨d, hdocument, hpayload, hfit⟩ := hput
    exact ⟨d, hdocument, hpayload, hfit.nesting_le, Document.decode_encode hfit.hasPayloads⟩
  cached := by
    intro e cached entry hkey hcached hentry hcurrent
    obtain ⟨r, hr, htoken, hagree, hfit⟩ := (h.engines e).cache hkey cached hcached
    obtain ⟨rest, rfl⟩ := h.latest hr htoken hentry hcurrent
    have hlatest : r.entry = entry := by
      have hcurrent := h.current
      rw [hentry] at hcurrent
      exact (Option.some.inj hcurrent).symm
    have hagree : r.document = cached.document := hagree
    have hfit : cached.document.IsWithin 126 := hfit
    rw [← hlatest]
    exact (hagree ▸ (h.holds r hr).1).decode_eq hfit.hasPayloads

theorem readable_of_allLand (h : AllLand (within 124) key c) : Readable key c := by
  intro time caller answer hmem
  refine isReadable_of_decode fun object hobject => ?_
  obtain ⟨d, hholds, (hfit : d.IsWithin 124)⟩ := h _ _ _ _ _ hmem rfl object hobject
  exact ⟨d, by rw [hholds.decode_eq hfit.hasPayloads, if_pos hfit.nesting_le]⟩

/-! ## Runs -/

/-- Others than engines and elections stay away from the key, and all specs that are submitted were
read from texts. -/
def Act.Spells (key : String) : Act → Prop
  | .submit _ m => m.IsSpelled
  | .call c => Spares key c
  | _ => True

/-- The specs that an act submits. -/
def Act.specs : Act → List JobSpec
  | .submit _ m => m.specs
  | _ => []

theorem Act.Spells.respects {act : Act} (h : act.Spells key) {n : Nat}
    (hn : ∀ spec ∈ act.specs, spec.payload.nesting ≤ n) : act.Respects (within n) key := by
  cases act with
  | submit e m =>
    show ∀ spec ∈ m.specs, spec.payload.IsPayloadWithin n
    intro spec hspec
    obtain ⟨⟨text, htext⟩, hintegral⟩ := h spec hspec
    exact ⟨⟨hintegral, (JobSpec.fitsIn_of_parse htext).1⟩, hn spec hspec⟩
  | call call => exact h
  | _ => trivial

theorem Act.Spells.nesting_le {act : Act} (h : act.Spells key) :
    ∀ spec ∈ act.specs, spec.payload.nesting ≤ 126 := by
  cases act with
  | submit e m =>
    intro spec hspec
    obtain ⟨⟨text, htext⟩, -⟩ := h spec hspec
    exact (JobSpec.fitsIn_of_parse htext).2
  | _ => exact List.forall_mem_nil _

theorem Opening.within {memory : Store.Memory} (h : Opening wholly key memory) {n : Nat}
    (hn : 124 ≤ n) : Opening (within n) key memory where
  bounded := h.bounded
  readable := by
    intro entry hentry
    obtain ⟨d, hdecode, hpayloads⟩ := h.readable entry hentry
    have hwithin : d.IsWithin n := fun j hj =>
      ⟨hpayloads j hj, (Document.fitsIn_of_decode hdecode j hj).2.trans hn⟩
    exact ⟨d, hdecode, hwithin⟩

/-- **Only payloads that nest too deep make a document unreadable**: those of 125 or 126 levels,
which a spec may have and a document may not. -/
theorem legible_run (engines : Nat → Engine.Options) (brokers : BrokerId → Broker.Options)
    (memory : Store.Memory) (ids : IdSupply) (clock : Millis) (key : String) (acts : List Act)
    (hopening : Opening wholly key memory) (hacts : ∀ act ∈ acts, act.Spells key) :
    let c := (init engines brokers memory ids clock).run acts
    Legible key c ∧
      ((∀ act ∈ acts, ∀ spec ∈ act.specs, spec.payload.nesting ≤ 124) → Readable key c) := by
  intro c
  have hnone (R : Recall) : AllLand R key (init engines brokers memory ids clock) :=
    fun _ _ _ _ _ => nofun
  have hrun {n : Nat} (hn : 124 ≤ n)
      (hdeep : ∀ act ∈ acts, ∀ spec ∈ act.specs, spec.payload.nesting ≤ n) :
      (∃ hist, Traced (within n) key c hist) ∧ AllLand (within n) key c := by
    have hrespects : ∀ act ∈ acts, act.Respects (within n) key := fun act hact =>
      (hacts act hact).respects (hdeep act hact)
    obtain ⟨hist, hinit, -⟩ := traced_init (hopening.within hn) engines brokers ids clock
    obtain ⟨new, htraced, -⟩ := hinit.run hrespects
    exact ⟨⟨_, htraced⟩, (hnone _).run hinit hrespects⟩
  constructor
  · obtain ⟨⟨hist, htraced⟩, hall⟩ := hrun (n := 126) (by decide) fun act hact =>
      (hacts act hact).nesting_le
    exact htraced.legible hall
  · exact fun hshallow => readable_of_allLand (hrun (Nat.le_refl 124) hshallow).2

/-! ## A handover -/

/-- An engine enqueues a job with a payload of so many levels, and then another engine starts. -/
def handover (n : Nat) : List Act :=
  [.startEngine (.lone 0), .land 0, .proceed 0, .submit (.lone 0) (.enqueue [.tall n]),
    .proceed 1, .proceed 1, .proceed 1, .land 1, .proceed 1,
    .startEngine (.lone 1), .land 2, .proceed 2, .land 2, .proceed 2]

def Event.start? (e : EngineId) : Event → Option Engine.StartResult
  | .started d result => if d = e then some result else none
  | _ => none

theorem handover_spells {n : Nat} (h : n ≤ 126) : ∀ act ∈ handover n, act.Spells key := by
  have hspelled : (Mutation.enqueue [.tall n]).IsSpelled :=
    List.forall_mem_singleton.2 ⟨⟨_, JobSpec.parse_tall h⟩, (Json.isPayload_tower n).1⟩
  simp only [handover, List.forall_mem_cons, Act.Spells, hspelled, true_and]
  exact List.forall_mem_nil _

theorem handover_nesting_le (n : Nat) :
    ∀ act ∈ handover n, ∀ spec ∈ act.specs, spec.payload.nesting ≤ n := by
  have htall : ∀ spec ∈ (Mutation.enqueue [.tall n]).specs, spec.payload.nesting ≤ n :=
    List.forall_mem_singleton.2 (Json.nesting_tower n).le
  simp only [handover, List.forall_mem_cons, Act.specs, List.not_mem_nil, false_implies,
    implies_true, true_and]
  exact ⟨htall, trivial⟩

/-- With 124 levels the other engine comes to run. -/
theorem legible_run_handover :
    let c := blank.run (handover 124)
    c.log.filterMap (Event.start? (.lone 1)) = [.running 1 false] ∧
      Legible "queue.json" c ∧ Readable "queue.json" c := by
  obtain ⟨hlegible, hreadable⟩ := legible_run (fun _ => .standard)
    (fun b => .standard (toString b)) .empty ⟨toString, 0⟩ 0 "queue.json" (handover 124)
    ⟨nofun, nofun⟩ (handover_spells (by decide))
  exact ⟨by decide +kernel, hlegible, hreadable (handover_nesting_le 124)⟩

/-- With 125 levels the enqueue is granted, cached and stored, and the other engine cannot read what
was stored. -/
theorem illegible_handover :
    let spec := JobSpec.tall 125
    let c := blank.run (handover 125)
    JobSpec.format.parse spec.toJson.render = .ok spec ∧ spec.payload.Integral ∧
    (c.settled (.lone 0)).map (·.verdict.toBool) = [true] ∧
    (c.engines (.lone 0)).cache.map (·.document.encode) =
      (c.memory.entry? "queue.json").map (·.data) ∧
    (c.memory.entry? "queue.json").map (Document.decode ·.data) = some (.error .malformed) ∧
    c.log.filterMap (Event.start? (.lone 1)) = [.failed (.codec .malformed)] := by
  intro spec c
  exact ⟨JobSpec.parse_tall (by decide), (Json.isPayload_tower 125).1, by decide +kernel,
    by decide +kernel, by decide +kernel, by decide +kernel⟩

end Cluster

end LeaseQueue
