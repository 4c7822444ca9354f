import LeaseQueue.Proofs.Cluster.Ages
import LeaseQueue.Proofs.Cluster.Candidacy
import LeaseQueue.Proofs.Cluster.Processes

/-!
# Where answers and writes come from

Whoever has an answer has had its call take effect, and what an engine has written was put at some
moment of the run:

  `w ∈ (c.run acts).written e → w ∈ c.written e ∨ ∃ m ∈ c.trail acts, m.Writes e w`

No submission is written at two moments, and no ticket is given twice.
-/

namespace LeaseQueue.Cluster

open Engine (Ledger Pending Write)

/-- The call of the process takes effect, and this is the answer. -/
structure Moment.Answers (m : Moment) (i : ProcId) {a : Store.Access} (caller : Caller a)
    (answer : Store.Answer a) : Prop where
  act : m.act = .land i
  lands : ∃ failure, m.before.procs[i]? = some (.awaiting caller (.sent failure)) ∧
    (m.before.memory.finish ⟨m.before.callOf caller, failure⟩).1 = answer

/-- A write of the engine takes effect. -/
def Moment.Writes (m : Moment) (e : EngineId) (w : Write) : Prop :=
  ∃ i epoch conflicts expected token,
    m.Puts i (.commit e epoch (.writing ⟨w.batch, conflicts⟩ w.document w.results expected)) token

/-- The engine has this write on its way, or the answer to it. -/
def Moment.Carries (m : Moment) (e : EngineId) (w : Write) : Prop :=
  ∃ (i : ProcId) (epoch : Nat) (conflicts : UInt32) (expected : Store.Token)
    (flight : Flight .put), m.before.procs[i]? = some (.awaiting
      (.commit e epoch (.writing ⟨w.batch, conflicts⟩ w.document w.results expected)) flight)

variable {start c : Cluster} {acts : List Act} {act : Act} {m m' : Moment} {i : ProcId}
  {e : EngineId} {w w' : Write}

/-! ## Answers -/

theorem exists_answers (hstart : start.procs = []) {a : Store.Access} {caller : Caller a}
    {answer : Store.Answer a}
    (h : (start.run acts).procs[i]? = some (.awaiting caller (.landed answer))) :
    ∃ l ∈ start.trail acts, l.Answers i caller answer := by
  have hstep (m : Moment) (hq : m.after.procs[i]? = some (.awaiting caller (.landed answer))) :
      m.before.procs[i]? = some (.awaiting caller (.landed answer)) ∨
        m.Answers i caller answer := by
    rcases landed_cases hq with hold | ⟨failure, hact, hsent, hanswer⟩
    · exact .inl hold
    · exact .inr ⟨hact, failure, hsent, hanswer.symm⟩
  rcases exists_moment (P := fun c => c.procs[i]? = _) hstep h with hfirst | hlater
  · cases (getElem?_of_procs_eq_nil hstart).symm.trans hfirst
  · exact hlater

theorem Moment.Answers.landed {a : Store.Access} {caller : Caller a} {answer : Store.Answer a}
    (h : m.Answers i caller answer) :
    m.after.procs[i]? = some (.awaiting caller (.landed answer)) := by
  obtain ⟨failure, hq, hanswer⟩ := h.lands
  obtain ⟨hi, -⟩ := List.getElem?_eq_some_iff.1 hq
  rw [Moment.after, h.act, step, land, hq, ← hanswer]
  exact List.getElem?_set_self hi

theorem Moment.Puts.landed {caller : Caller .put} {token : Store.Token}
    (h : m.Puts i caller token) :
    m.after.procs[i]? = some (.awaiting caller (.landed (.ok token))) :=
  Moment.Answers.landed ⟨h.act, h.lands⟩

/-- A call that has taken effect did so before, or does now. -/
theorem landing_step {event : Event} (h : event.isLanding = true)
    (hmem : event ∈ (c.step act).log) :
    event ∈ c.log ∨ ∃ (i : ProcId) (a : Store.Access) (caller : Caller a) (answer : Store.Answer a),
      Moment.Answers ⟨c, act⟩ i caller answer ∧
        event = .landed c.clock caller (c.callOf caller) answer := by
  rcases act.land_or with ⟨i, rfl⟩ | hne
  · rcases land_cases c i with heq | ⟨a, caller, failure, hq, heq⟩
    · rw [step, heq] at hmem
      exact .inl hmem
    · rw [step, heq] at hmem
      rcases List.mem_cons.1 hmem with hnew | hold
      · exact .inr ⟨i, a, caller, _, ⟨rfl, failure, hq, rfl⟩, hnew⟩
      · exact .inl hold
  · have hlandings := congrArg Background.landings (background_step c act hne)
    have hlanding : event ∈ (c.step act).background.landings := List.mem_filter.2 ⟨hmem, h⟩
    rw [hlandings] at hlanding
    exact .inl (List.mem_filter.1 hlanding).1

/-! ## Writes -/

theorem writes_step (hw : w ∈ (c.step act).written e) :
    w ∈ c.written e ∨ Moment.Writes ⟨c, act⟩ e w := by
  obtain ⟨event, hevent, hsome⟩ := List.mem_filterMap.1 hw
  obtain ⟨time, epoch, conflicts, expected, call, token, rfl⟩ := landed_of_written? hsome
  rcases landing_step rfl hevent with hold | ⟨i, a, caller, answer, hanswers, heq⟩
  · exact .inl (List.mem_filterMap.2 ⟨_, hold, hsome⟩)
  · cases heq
    exact .inr ⟨i, epoch, conflicts, expected, token, hanswers.act, hanswers.lands⟩

theorem exists_writes (hw : w ∈ (start.run acts).written e) :
    w ∈ start.written e ∨ ∃ m ∈ start.trail acts, m.Writes e w :=
  exists_moment (P := fun c => w ∈ c.written e) (fun _ => writes_step) hw

theorem Moment.Writes.mem_written (h : m.Writes e w) : w ∈ m.after.written e := by
  obtain ⟨i, epoch, conflicts, expected, token, hputs⟩ := h
  obtain ⟨failure, hq, hok⟩ := hputs.lands
  let caller : Caller .put :=
    .commit e epoch (.writing ⟨w.batch, conflicts⟩ w.document w.results expected)
  have hlog : m.after.log =
      .landed m.before.clock caller (m.before.callOf caller) (.ok token) :: m.before.log := by
    rw [Moment.after, hputs.act, step, land, hq, ← hok]
    rfl
  refine List.mem_filterMap.2 ⟨_, hlog ▸ List.mem_cons_self, ?_⟩
  rw [Event.written?, decide_eq_true rfl]
  rfl

theorem Moment.Writes.carries (h : m.Writes e w) : m.Carries e w := by
  obtain ⟨i, epoch, conflicts, expected, token, hputs⟩ := h
  obtain ⟨failure, hq, -⟩ := hputs.lands
  exact ⟨i, epoch, conflicts, expected, _, hq⟩

/-! ## Ledgers along a trail -/

theorem Moment.grows (m : Moment) (e : EngineId) :
    (m.before.ledger e).Grows (m.after.ledger e) := .of_steps (steps_step m.act)

theorem grows_of_sublist (h : [m, m'].Sublist (start.trail acts)) (e : EngineId) :
    (m.after.ledger e).Grows (m'.before.ledger e) :=
  rel_of_sublist (R := fun c c' => (c.ledger e).Grows (c'.ledger e))
    (fun _ acts => .of_steps (steps_run acts)) h

/-- What an engine is about to write was taken. -/
theorem Moment.Carries.taken (h : m.Carries e w) {timeout : Millis}
    (hsound : Ledger.Sound timeout (m.before.ledger e)) {p : Pending} (hp : p ∈ w.batch) :
    p ∈ (m.before.ledger e).taken := by
  obtain ⟨i, epoch, conflicts, expected, flight, hq⟩ := h
  refine hsound.same p (List.mem_append_right _ (List.mem_flatMap.2 ?_))
  have herrand (f : Engine.Errand) (hf : f ∈ Proc.errands e (.awaiting (.commit e epoch
      (.writing ⟨w.batch, conflicts⟩ w.document w.results expected)) flight)) :
      f ∈ (m.before.ledger e).errands :=
    (errands_perm hq).mem_iff.2 (List.mem_append_left _ hf)
  cases flight with
  | sent failure =>
    rw [Proc.errands, if_pos rfl] at herrand
    exact ⟨_, herrand _ (List.mem_singleton_self _), hp⟩
  | landed answer =>
    rw [Proc.errands, if_pos rfl] at herrand
    exact ⟨_, herrand _ (List.mem_singleton_self _), hp⟩

/-- When a write has taken effect, nothing that is on its way has the same submission. -/
theorem Moment.Writes.not_again (h : m.Writes e w) (h' : m'.Writes e w')
    (horder : [m, m'].Sublist (start.trail acts)) {timeout : Millis}
    (hsound : Ledger.Sound timeout (m'.before.ledger e)) {ticket : Engine.Ticket}
    (hfolds : w.folds ticket) : ¬ w'.folds ticket := by
  intro hfolds'
  have hwritten : w ∈ (m'.before.ledger e).written :=
    (grows_of_sublist horder e).written h.mem_written
  obtain ⟨i, epoch, conflicts, expected, token, hputs⟩ := h'
  obtain ⟨failure, hq, -⟩ := hputs.lands
  obtain ⟨p, hp, rfl⟩ := Write.folds_iff.1 hfolds'
  exact hsound.not_folded (errand_of_sent hq) rfl hp hwritten hfolds

/-- **No submission is written twice.** -/
theorem eq_of_writes (hsound : ∀ m ∈ start.trail acts,
      ∃ timeout, Ledger.Sound timeout (m.before.ledger e))
    (hm : m ∈ start.trail acts) (hm' : m' ∈ start.trail acts) (h : m.Writes e w)
    (h' : m'.Writes e w') {ticket : Engine.Ticket} (hfolds : w.folds ticket)
    (hfolds' : w'.folds ticket) : m = m' := by
  obtain ⟨_, hbefore⟩ := hsound m hm
  obtain ⟨_, hbefore'⟩ := hsound m' hm'
  rcases eq_or_sublist_trail hm hm' with heq | horder | horder
  · exact heq
  · exact absurd hfolds' (h.not_again h' horder hbefore' hfolds)
  · exact absurd hfolds (h'.not_again h horder hbefore hfolds')

end LeaseQueue.Cluster
