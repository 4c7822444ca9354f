import LeaseQueue.Proofs.Cluster.Ledgers

/-!
# Acknowledgements

A submission that an engine took waits in the buffer, is carried by a loop or has been answered, and
is never in two places.  What submitters are told is what happened to the store: a result comes from
the only write that has the submission, and an error means that there is none.

  `((init engines brokers memory ids clock).run acts).Acknowledges e`
-/

namespace LeaseQueue.Cluster

open Engine (Ledger Write Pending Settlement)

variable {e : EngineId}

/-- The submissions that an engine took, the latest first. -/
def accepted (c : Cluster) (e : EngineId) : List Pending := c.log.filterMap (Event.taken? e)

/-- The submissions in batches that loops of the engine carry. -/
def inFlight (c : Cluster) (e : EngineId) : List Pending :=
  (c.procs.flatMap (Proc.errands e)).flatMap (·.batch)

def settled (c : Cluster) (e : EngineId) : List Settlement := c.log.filterMap (Event.settled? e)

def drained (c : Cluster) (e : EngineId) : List (List Pending) :=
  c.log.filterMap (Event.drained? e)

def written (c : Cluster) (e : EngineId) : List Write := c.log.filterMap (Event.written? e)

/-- What submitters to an engine can rely on. -/
structure Acknowledges (c : Cluster) (e : EngineId) : Prop where
  /-- A submission that was taken is in exactly one place. -/
  places : ((c.engines e).buffer.map (·.ticket) ++ (c.inFlight e).map (·.ticket) ++
    (c.settled e).map (·.ticket)).Perm ((c.accepted e).map (·.ticket))
  once : ((c.accepted e).map (·.ticket)).Nodup
  same : ∀ p ∈ (c.engines e).buffer ++ c.inFlight e, p ∈ c.accepted e
  /-- A result is that of the only write that has the submission. -/
  result : ∀ s ∈ c.settled e, ∀ r, s.verdict = .ok r →
    ∃ w m, (c.written e).filter (·.folds s.ticket) = [w] ∧
      (⟨s.ticket, m⟩, r) ∈ w.batch.zip w.results ∧ ⟨s.ticket, m⟩ ∈ c.accepted e
  /-- An error is given only for what no write has. -/
  failure : ∀ s ∈ c.settled e, ∀ cause, s.verdict = .error cause →
    (c.written e).filter (·.folds s.ticket) = []
  whole : ∀ batch ∈ c.drained e,
    (∃ w, ∀ p ∈ batch, (c.written e).filter (·.folds p.ticket) = [w]) ∨
    ∀ p ∈ batch, (c.written e).filter (·.folds p.ticket) = []
  /-- A write has one drained batch, and its document and its results come from one pass. -/
  folded : ∀ w ∈ c.written e,
    w.batch ∈ c.drained e ∧ w.IsFold (c.engines e).options.heartbeatTimeout
  /-- It is a put that succeeded, of this very document. -/
  stored : ∀ w ∈ c.written e, ∃ time epoch conflicts expected token,
    .landed time (.commit e epoch (.writing ⟨w.batch, conflicts⟩ w.document w.results expected))
      (.write (c.engines e).options.stateKey w.document.encode expected) (.ok token) ∈ c.log

theorem landed_of_written? {event : Event} {w : Write} (h : event.written? e = some w) :
    ∃ time epoch conflicts expected call token, event = .landed time (.commit e epoch
      (.writing ⟨w.batch, conflicts⟩ w.document w.results expected)) call (.ok token) := by
  revert h
  fun_cases Event.written? e event
  case case1 time a d epoch point call answer hif =>
    intro h
    rw [Bool.and_eq_true, decide_eq_true_eq] at hif
    obtain ⟨rfl, hlanded⟩ := hif
    cases point with
    | reading pass => cases h
    | writing pass document results expected =>
      obtain rfl := Option.some.inj h
      cases answer with
      | error cause => cases hlanded
      | ok token => exact ⟨_, _, _, _, _, _, rfl⟩
  case case2 => exact nofun
  case case3 => exact nofun

theorem ledger_init (engines : Nat → Engine.Options) (brokers : BrokerId → Broker.Options)
    (memory : Store.Memory) (ids : IdSupply) (clock : Millis) (e : EngineId) :
    (init engines brokers memory ids clock).ledger e = .empty := by
  cases e <;> rfl

theorem sound_run (engines : Nat → Engine.Options) (brokers : BrokerId → Broker.Options)
    (memory : Store.Memory) (ids : IdSupply) (clock : Millis) (acts : List Act) (e : EngineId) :
    let c := (init engines brokers memory ids clock).run acts
    Ledger.Sound (c.engines e).options.heartbeatTimeout (c.ledger e) := by
  intro c
  let start := init engines brokers memory ids clock
  have hoptions : (c.engines e).options = (start.engines e).options :=
    engine_options_eq (options_run start acts) e
  have hempty : Ledger.Sound (start.engines e).options.heartbeatTimeout (start.ledger e) :=
    ledger_init engines brokers memory ids clock e ▸ Ledger.sound_empty
  rw [hoptions]
  exact hempty.steps (steps_run acts)

/-- **Every submission is answered once, and never against the store**: in every run, with any other
engines, elections, brokers and clients at the same store. -/
theorem acknowledges_run (engines : Nat → Engine.Options) (brokers : BrokerId → Broker.Options)
    (memory : Store.Memory) (ids : IdSupply) (clock : Millis) (acts : List Act) (e : EngineId) :
    ((init engines brokers memory ids clock).run acts).Acknowledges e := by
  let c := init engines brokers memory ids clock
  have hsound := sound_run engines brokers memory ids clock acts e
  have hcalls : (c.run acts).CallsOwn := CallsOwn.run (fun _ _ _ _ _ h => by cases h) acts
  exact {
    places := hsound.places
    once := hsound.once
    same := hsound.same
    result := fun s hs r hr => hsound.result hs hr
    failure := fun s hs cause hcause => hsound.failure hs hcause
    whole := fun batch hbatch => hsound.whole hbatch
    folded := hsound.written
    stored := by
      intro w hw
      obtain ⟨event, hevent, hsome⟩ := List.mem_filterMap.1 hw
      obtain ⟨time, epoch, conflicts, expected, call, token, rfl⟩ := landed_of_written? hsome
      have hcall := hcalls _ _ _ _ _ (List.mem_filter.2 ⟨hevent, rfl⟩)
      rw [callOf, Engine.Commit.call] at hcall
      exact ⟨time, epoch, conflicts, expected, token, hcall ▸ hevent⟩ }

end LeaseQueue.Cluster
