import LeaseQueue.Proofs.Cluster.Candidacy
import LeaseQueue.Proofs.Cluster.Routines

/-!
# Tickets

Every submission has a ticket of its own, whichever engine it is for and whether it is taken or
rejected: the log has the numbers of all tickets so far, each once, and the latest first.

  `c.submissions = (List.range c.tickets).reverse`

So an error that is found under a ticket is about one submission, and no write that landed has it.
-/

namespace LeaseQueue.Cluster

open Engine (Ledger Pending Settlement Ticket)

/-- The ticket of a submission that was taken or rejected. -/
def Event.ticket? : Event → Option Ticket
  | .accepted _ p => some p.ticket
  | .rejected _ p => some p.ticket
  | _ => none

def submissions (c : Cluster) : List Ticket := c.log.filterMap Event.ticket?

/-- Submissions are numbered from zero. -/
def Counted (c : Cluster) : Prop := c.submissions = (List.range c.tickets).reverse

variable {c c' : Cluster} {i : ProcId} {d e : EngineId} {b : BrokerId}

/-! ## Every step counts -/

theorem Counted.of_routine (h : c.Counted) (hroutine : Routine c c') : c'.Counted := by
  obtain ⟨new, hlog, hnew⟩ := hroutine.log
  have hnone : new.filterMap Event.ticket? = [] := by
    rw [List.filterMap_eq_nil_iff]
    intro event hevent
    have := hnew event hevent
    cases event <;> first | rfl | cases this
  rw [Counted, submissions, hlog, List.filterMap_append, hnone, hroutine.tickets]
  exact h

theorem Counted.submit (h : c.Counted) (m : Mutation) : (c.submit e m).Counted := by
  have hnext : (List.range (c.tickets + 1)).reverse = c.tickets :: c.submissions := by
    rw [h, List.range_succ, List.reverse_append]
    rfl
  rw [Cluster.submit]
  split <;> exact hnext.symm

theorem Counted.followElection (h : c.Counted) {election : Election}
    (progress : Store.Progress Election.Attempt Election.Outcome) :
    (c.followElection i election progress).Counted := by
  cases progress with
  | done outcome => exact h
  | waiting attempt => exact h.of_routine (routine_launch _)

theorem Counted.followBroker (h : c.Counted) (move : Engine × Broker.StartStep) :
    (c.followBroker i b move).Counted := by
  obtain ⟨engine, point | ⟨epoch, kick, registration⟩ | cause⟩ := move
  · have hset : Counted (c.setEngine (.ofBroker b) engine) := h
    exact hset.of_routine (routine_launch _)
  · let spawned := (c.setEngine (.ofBroker b) engine).spawn (.loop (.ofBroker b) epoch .entering)
    have hspawned : spawned.Counted := h
    exact hspawned.submit registration
  · exact h

theorem Counted.followBeat (h : c.Counted) {own : Bool} (next : Broker.HeartbeatStep) :
    (c.followBeat i b own next).Counted := by
  cases next with
  | done result => exact h.of_routine (routine_finishBeat result)
  | renew renewal => exact h.submit renewal

theorem Counted.resume (h : c.Counted) {a : Store.Access} (caller : Caller a)
    (answer : Store.Answer a) : (c.resume i caller answer).Counted := by
  cases caller with
  | start e point => exact h.of_routine (routine_followStart _)
  | commit e epoch point => exact h.of_routine (routine_followMove _)
  | election election attempt => exact h.followElection _
  | broker b point => exact (h.of_routine (routine_crown _)).followBroker _
  | beat b own => exact h.followBeat _
  | client call => exact h

theorem Counted.proceed (h : c.Counted) (i : ProcId) : (c.proceed i).Counted := by
  unfold Cluster.proceed
  split
  · exact h.resume _ _
  · exact h.of_routine (routine_stepLoop _)
  · split
    · exact h.of_routine (routine_enthrone _)
    · exact h
  · split
    · exact h.of_routine (routine_finishBeat _)
    · exact h
  · exact h

theorem Counted.landed (h : c.Counted) {a : Store.Access} (caller : Caller a)
    (answer : Store.Answer a) (memory : Store.Memory) :
    (c.landed i caller answer memory).Counted := h

theorem Counted.step (h : c.Counted) (act : Act) : (c.step act).Counted := by
  cases act with
  | setClock | setMemory => exact h
  | submit e m =>
    rw [Cluster.step]
    split
    · exact h.submit m
    · exact h
  | startEngine e =>
    rw [Cluster.step]
    split
    · exact h.of_routine routine_startEngine
    · exact h
  | stopEngine e =>
    rw [Cluster.step]
    split
    · exact h.of_routine routine_stopEngine
    · exact h
  | elect election now => exact h.of_routine (routine_elect election now)
  | call call => exact h.of_routine (routine_begin _)
  | startBroker b => exact h.of_routine routine_startBroker
  | beat b own => exact h.of_routine (routine_beat own)
  | stopBroker b => exact h.of_routine routine_stopBroker
  | land i =>
    rw [Cluster.step]
    rcases land_cases c i with heq | ⟨a, caller, failure, -, heq⟩
    · rw [heq]
      exact h
    · rw [heq]
      exact h.landed caller _ _
  | proceed i => exact h.proceed i

/-! ## One submission for each ticket -/

theorem Counted.unique (h : c.Counted) {event event' : Event} (hevent : event ∈ c.log)
    (hevent' : event' ∈ c.log) {ticket : Ticket} (hticket : event.ticket? = some ticket)
    (hticket' : event'.ticket? = some ticket) : event = event' := by
  have hnodup : c.submissions.Nodup := h ▸ List.nodup_reverse.2 List.nodup_range
  rw [submissions, List.Nodup, List.pairwise_filterMap] at hnodup
  by_contra hne
  have hsymm : Std.Symm fun x y : Event =>
      ∀ t, x.ticket? = some t → ∀ t', y.ticket? = some t' → t ≠ t' :=
    ⟨fun _ _ h t ht t' ht' heq => h t' ht' t ht heq.symm⟩
  exact hnodup.forall hevent hevent' hne ticket hticket ticket hticket' rfl

/-- Whoever settles a submission has taken it. -/
theorem taken_of_settled (hsound : Ledger.Sound (c.engines e).options.heartbeatTimeout (c.ledger e))
    {s : Settlement} (hs : s ∈ c.settled e) : ∃ p ∈ (c.ledger e).taken, p.ticket = s.ticket := by
  have hticket : s.ticket ∈ (c.ledger e).taken.map (·.ticket) :=
    hsound.places.mem_iff.1 (List.mem_append_right _ (List.mem_map_of_mem hs))
  exact List.mem_map.1 hticket

/-- **What a submission comes to is the verdict of the engine that took it.** -/
theorem Counted.settled_of_verdict (h : c.Counted)
    (hsound : ∀ e, Ledger.Sound (c.engines e).options.heartbeatTimeout (c.ledger e)) {p : Pending}
    (htaken : p ∈ (c.ledger e).taken) {verdict : Engine.Verdict}
    (hverdict : c.verdict? p.ticket = some verdict) : ⟨p.ticket, verdict⟩ ∈ c.settled e := by
  have haccepted := mem_log_of_taken htaken
  obtain ⟨event, hevent, hsome⟩ := List.exists_of_findSome?_eq_some hverdict
  cases event with
  | settled d s =>
    obtain ⟨hticket, hverdict⟩ := Option.ite_none_right_eq_some.1 hsome
    have hs : s ∈ c.settled d := List.mem_filterMap.2 ⟨_, hevent, if_pos rfl⟩
    obtain ⟨q, hq, hsame⟩ := taken_of_settled (hsound d) hs
    have heq := h.unique (mem_log_of_taken hq) haccepted (congrArg some (hsame.trans hticket)) rfl
    cases heq
    obtain rfl := Option.some.inj hverdict
    rw [← hticket]
    exact hs
  | rejected d q =>
    obtain ⟨hticket, -⟩ := Option.ite_none_right_eq_some.1 hsome
    cases h.unique hevent haccepted (congrArg some hticket) rfl
  | _ => cases hsome

/-- No write that landed has a submission whose verdict is an error. -/
theorem Counted.not_folded (h : c.Counted)
    (hsound : ∀ e, Ledger.Sound (c.engines e).options.heartbeatTimeout (c.ledger e))
    {ticket : Ticket} {cause : Engine.Error} (hverdict : c.verdict? ticket = some (.error cause))
    {w : Engine.Write} (hw : w ∈ c.written e) : ¬ w.folds ticket := by
  intro hfolds
  obtain ⟨p, hp, rfl⟩ := Engine.Write.folds_iff.1 hfolds
  have htaken := ((hsound e).batches _ ((hsound e).written w hw).1).2 p hp
  exact (hsound e).error _ (h.settled_of_verdict hsound htaken hverdict) cause rfl w hw hfolds

theorem counted_init (engines : Nat → Engine.Options) (brokers : BrokerId → Broker.Options)
    (memory : Store.Memory) (ids : IdSupply) (clock : Millis) :
    (init engines brokers memory ids clock).Counted := rfl

end LeaseQueue.Cluster
