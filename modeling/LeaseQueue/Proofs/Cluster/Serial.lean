import LeaseQueue.Proofs.Cluster.Rosters
import Mathlib.Data.List.Induction
import Mathlib.Data.List.Sort

/-!
# One pass after another

An engine has one pass at a time, and what it writes takes effect in the order in which it was
submitted, as long as it does not come to run anew while a pass is still under way:

  `(c.run acts).Serial e`, or some step of the run is `Hasty`

A loop does not look at the epoch between giving way and the end of its pass.  So one that is left
over from before a stop takes part in what the next one does.
-/

namespace LeaseQueue.Cluster

open Engine (Duty Ledger Pending Roster)

/-- The loop has looked at the epoch for the last time before the end of its pass. -/
def Proc.isUnderWay (e : EngineId) : Proc → Bool
  | .awaiting (.commit d _ _) _ => d = e
  | .loop d _ .givingWay | .loop d _ (.backingOff _) => d = e
  | _ => false

/-- One sequence of passes. -/
structure Serial (c : Cluster) (e : EngineId) : Prop where
  alone : ∀ (i j : ProcId) (p q : Proc), c.procs[i]? = some p → c.procs[j]? = some q →
    p.isUnderWay e → q.isUnderWay e → i = j
  /-- What was written, in the order in which it took effect, is in the order of submission. -/
  ordered : ((c.written e).reverse.flatMap (·.batch)).Sublist (c.accepted e).reverse

/-- An act that makes the engine run while a pass is under way. -/
structure Hasty (c : Cluster) (e : EngineId) (act : Act) : Prop where
  before : (c.engines e).phase ≠ .running
  after : ((c.step act).engines e).phase = .running
  busy : ∃ (i : ProcId) (q : Proc), c.procs[i]? = some q ∧ q.isUnderWay e

variable {c : Cluster} {e : EngineId} {act : Act}

theorem isUnderWay_ite {p : Prop} [Decidable p] {d : Duty} :
    (if p then d else .off).IsUnderWay ↔ p ∧ d.IsUnderWay :=
  ite_off_iff Duty.not_isUnderWay_off

theorem isUnderWay_loop_ite {p : Prop} [Decidable p] {epoch : Nat} {s : Engine.Stage}
    (hs : s ≠ .resting) :
    (if p then Duty.loop epoch s else .off).IsUnderWay ↔ decide p = true := by
  rw [isUnderWay_ite, Duty.isUnderWay_loop, and_iff_left hs, decide_eq_true_eq]

theorem not_isUnderWay_ite {p : Prop} [Decidable p] {d : Duty} (hd : ¬ d.IsUnderWay) :
    (if p then d else .off).IsUnderWay ↔ false = true :=
  iff_of_false (fun h => hd (isUnderWay_ite.1 h).2) Bool.false_ne_true

theorem isUnderWay_duty (q : Proc) : (q.duty e).IsUnderWay ↔ q.isUnderWay e := by
  have hoff : Duty.off.IsUnderWay ↔ false = true :=
    iff_of_false Duty.not_isUnderWay_off Bool.false_ne_true
  cases q with
  | awaiting caller flight =>
    cases caller with
    | start d point => exact not_isUnderWay_ite Duty.not_isUnderWay_start
    | broker b point =>
      cases point with
      | electing => exact hoff
      | opening now point => exact not_isUnderWay_ite Duty.not_isUnderWay_start
    | commit d epoch point =>
      cases flight with
      | sent failure => exact isUnderWay_loop_ite (by cases point <;> simp [Engine.Commit.stage])
      | landed answer =>
        exact isUnderWay_loop_ite (by cases point <;> simp [Engine.Commit.stageAfter])
    | election | beat | client => exact hoff
  | loop d epoch pause =>
    cases pause with
    | entering | resting =>
      have hresting : ¬ (Duty.loop epoch .resting).IsUnderWay :=
        fun h => Duty.isUnderWay_loop.1 h rfl
      exact not_isUnderWay_ite hresting
    | givingWay => exact isUnderWay_loop_ite (by simp [Pause.stage])
    | backingOff pass => exact isUnderWay_loop_ite (by simp [Pause.stage])
  | registering | renewing | ended => exact hoff

/-- A duty under way is that of some process. -/
theorem isUnderWay_of_duty {i : ProcId} (h : (c.duty e i).IsUnderWay) :
    ∃ q, c.procs[i]? = some q ∧ q.isUnderWay e := by
  obtain ⟨q, hq, hduty⟩ := exists_of_duty fun hoff => Duty.not_isUnderWay_off (hoff ▸ h)
  rw [hduty] at h
  exact ⟨q, hq, (isUnderWay_duty q).1 h⟩

/-! ## Steady engines -/

/-- What keeps an engine serial. -/
structure Steady (c : Cluster) (e : EngineId) : Prop where
  wellFormed : (c.roster e).WellFormed (c.engines e).options.maxRetries.toNat
  single : (c.roster e).IsSingle
  inLine : (c.roster e).IsInLine

theorem Steady.step (h : c.Steady e) (hcalm : ¬ c.Hasty e act) : (c.step act).Steady e := by
  refine ⟨wellFormed_step h.wellFormed act, ?_, ?_⟩
  all_goals rcases step_or_begin (c := c) (e := e) act with hstep | ⟨-, i, hbegin⟩
  · refine h.single.step h.wellFormed hstep fun hbefore hafter i hbusy => hcalm ?_
    exact ⟨hbefore, hafter, i, isUnderWay_of_duty hbusy⟩
  · exact h.single.begin hbegin
  · exact h.inLine.step h.single hstep
  · exact h.inLine.begin hbegin

theorem Steady.alone (h : c.Steady e) {i j : ProcId} {p q : Proc} (hp : c.procs[i]? = some p)
    (hq : c.procs[j]? = some q) (hi : p.isUnderWay e) (hj : q.isUnderWay e) : i = j := by
  have hduty {i : ProcId} {q : Proc} (hq : c.procs[i]? = some q) (hi : q.isUnderWay e) :
      ((c.roster e).duty i).IsUnderWay := by
    have hsome : c.duty e i = q.duty e := duty_of_getElem? hq
    show (c.duty e i).IsUnderWay
    rw [hsome]
    exact (isUnderWay_duty q).2 hi
  exact h.single i j (Roster.isActive_of_isUnderWay (hduty hp hi))
    (Roster.isActive_of_isUnderWay (hduty hq hj))

section Runs

variable {engines : Nat → Engine.Options} {brokers : BrokerId → Broker.Options}
  {memory : Store.Memory} {ids : IdSupply} {clock : Millis}

theorem steady_init : (init engines brokers memory ids clock).Steady e := by
  constructor
  all_goals rw [roster_init]
  · exact Roster.wellFormed_empty
  · exact Roster.isSingle_empty
  · exact Roster.isInLine_empty

theorem steady_or_hasty (acts : List Act) :
    let start := init engines brokers memory ids clock
    (start.run acts).Steady e ∨
    ∃ before act after, acts = before ++ act :: after ∧ (start.run before).Hasty e act := by
  intro start
  induction acts using List.reverseRecOn with
  | nil => exact .inl steady_init
  | append_singleton acts act ih =>
    rcases ih with hsteady | ⟨before, hasty, after, rfl, hhasty⟩
    · by_cases hhasty : (start.run acts).Hasty e act
      · exact .inr ⟨acts, act, [], rfl, hhasty⟩
      · rw [run_append]
        exact .inl (hsteady.step hhasty)
    · refine .inr ⟨before, hasty, after ++ [act], ?_, hhasty⟩
      rw [List.append_assoc, List.cons_append]

theorem Steady.ordered {acts : List Act}
    (h : ((init engines brokers memory ids clock).run acts).Steady e) :
    let c := (init engines brokers memory ids clock).run acts
    ((c.written e).reverse.flatMap (·.batch)).Sublist (c.accepted e).reverse := by
  intro c
  have hsound := sound_run engines brokers memory ids clock acts e
  obtain ⟨m, n, hline⟩ := h.inLine
  have hwritten : ((c.written e).reverse.flatMap (·.batch)).Pairwise (·.ticket < ·.ticket) := by
    rw [List.flatMap_def, List.map_reverse]
    exact hline.written.ordered
  have haccepted : (c.accepted e).reverse.Pairwise (·.ticket < ·.ticket) := by
    have hsteps := steps_run (c := init engines brokers memory ids clock) (e := e) acts
    rw [ledger_init] at hsteps
    exact List.pairwise_reverse.2 (Ledger.sound_empty.taken_ordered .nil hsteps)
  have hsubset : (c.written e).reverse.flatMap (·.batch) ⊆ (c.accepted e).reverse := by
    intro p hp
    obtain ⟨w, hw, hpw⟩ := List.mem_flatMap.1 hp
    have hdrained := (hsound.written w (List.mem_reverse.1 hw)).1
    exact List.mem_reverse.2 ((hsound.batches _ hdrained).2 p hpw)
  have hasymm : Std.Antisymm fun p q : Pending => p.ticket < q.ticket :=
    ⟨fun p q hpq hqp => absurd hpq (Nat.lt_asymm hqp)⟩
  have hnodup : ((c.written e).reverse.flatMap (·.batch)).Nodup := by
    refine hwritten.imp fun hlt heq => ?_
    rw [heq] at hlt
    exact Nat.lt_irrefl _ hlt
  exact List.sublist_of_subperm_of_pairwise (List.subperm_of_subset hnodup hsubset) hwritten
    haccepted

/-- **An engine has one sequence of passes**, unless it came to run while one was under way. -/
theorem serial_or_hasty (engines : Nat → Engine.Options) (brokers : BrokerId → Broker.Options)
    (memory : Store.Memory) (ids : IdSupply) (clock : Millis) (acts : List Act) (e : EngineId) :
    let start := init engines brokers memory ids clock
    (start.run acts).Serial e ∨
    ∃ before act after, acts = before ++ act :: after ∧ (start.run before).Hasty e act := by
  intro start
  rcases steady_or_hasty (e := e) acts with hsteady | hhasty
  · exact .inl ⟨fun i j p q hp hq hi hj => hsteady.alone hp hq hi hj, hsteady.ordered⟩
  · exact .inr hhasty

end Runs

/-- A pass that backs off while its engine is stopped and started goes on beside the next one, and
what it writes takes effect after what was submitted later. -/
theorem overtaken_after_restart :
    let e : EngineId := .lone 0
    let acts : List Act := [.startEngine e, .land 0, .proceed 0, .submit e (.complete "a" "w"),
      .proceed 1, .proceed 1, .proceed 1,
      .call (.write "queue.json" Document.empty.encode "1"), .land 2, .land 1, .proceed 1,
      .stopEngine e, .startEngine e, .land 3, .proceed 3, .land 3, .proceed 3,
      .submit e (.complete "b" "w"), .proceed 4, .proceed 4, .proceed 4]
    let more : List Act := [.land 4, .proceed 4, .proceed 1, .land 1]
    (blank.run acts).procs.map (·.isUnderWay e) = [false, true, false, false, true] ∧
    ((blank.run (acts ++ more)).accepted e).reverse.map (·.ticket) = [0, 1] ∧
    (((blank.run (acts ++ more)).written e).reverse.flatMap (·.batch)).map (·.ticket) = [1, 0] ∧
    ¬ (blank.run acts).Serial e ∧ ¬ (blank.run (acts ++ more)).Serial e := by
  intro e acts more
  have hbusy : (blank.run acts).procs.map (·.isUnderWay e) = [false, true, false, false, true] := by
    decide +kernel
  have haccepted : ((blank.run (acts ++ more)).accepted e).reverse.map (·.ticket) = [0, 1] := by
    decide +kernel
  have hwritten : (((blank.run (acts ++ more)).written e).reverse.flatMap (·.batch)).map
      (·.ticket) = [1, 0] := by
    decide +kernel
  refine ⟨hbusy, haccepted, hwritten, ?_, ?_⟩
  · intro hserial
    have hat (i : ProcId) (hi : ((blank.run acts).procs.map (·.isUnderWay e))[i]? = some true) :
        ∃ q, (blank.run acts).procs[i]? = some q ∧ q.isUnderWay e = true := by
      rwa [List.getElem?_map, Option.map_eq_some_iff] at hi
    obtain ⟨p, hp, hunder⟩ := hat 1 (by rw [hbusy]; rfl)
    obtain ⟨q, hq, hunder'⟩ := hat 4 (by rw [hbusy]; rfl)
    exact absurd (hserial.alone 1 4 p q hp hq hunder hunder') (by decide)
  · intro hserial
    have hsublist := hserial.ordered.map (·.ticket)
    rw [haccepted, hwritten] at hsublist
    exact absurd hsublist (by decide)

end LeaseQueue.Cluster
