import LeaseQueue.Engine.Loop
import Mathlib.Data.List.Pairwise
import Mathlib.Logic.Function.Basic

/-!
# The roster of an engine

Who works for an engine, apart from documents and stores: starts that wait, and loops with the
passes that they carry, each for the epoch that it belongs to.

A loop looks at the epoch when it comes to rest and when it is woken, and at no other time.  So a
loop whose epoch is over still takes what is buffered if it has been woken, and still writes,
conflict after conflict, if it carries a pass.  As long as no loop is started while another one is
under way, there is one at a time, and what is submitted is written in order:

  `r.IsSingle`, `r.IsInLine`

And a stopped engine is left with the passes that were under way (`Winds`).
-/

namespace LeaseQueue.Engine

/-- What submitters, starts and loops share. -/
structure Control where
  phase : Phase
  epoch : Nat
  buffer : List Pending

def control (e : Engine) : Control := ⟨e.phase, e.epoch, e.buffer⟩

/-- A batch that is still to be written, and how many conflicts there will have been by then. -/
structure Due where
  batch : List Pending
  conflicts : Nat

/-- The same batch, after at least as many conflicts. -/
structure Due.Continues (due earlier : Due) : Prop where
  batch : due.batch = earlier.batch
  conflicts : earlier.conflicts ≤ due.conflicts

def Pass.due (pass : Pass) : Due := ⟨pass.batch, pass.conflicts.toNat⟩

/-- How far a loop is. -/
inductive Stage where
  /-- It will look whether its epoch is over. -/
  | resting
  /-- It has looked, and will take what is buffered. -/
  | yielding
  | reading (pass : Pass)
  | backingOff (pass : Pass)
  | writing (pass : Pass)
  /-- The write has taken effect, or has failed. -/
  | answered (pass : Pass) (landed : Bool)

namespace Stage

def pass? : Stage → Option Pass
  | .resting | .yielding => none
  | .reading pass | .backingOff pass | .writing pass | .answered pass _ => some pass

/-- The next write that the pass begins, if it is not yet written. -/
def due? : Stage → Option Due
  | .reading pass | .backingOff pass => some pass.due
  | .writing pass | .answered pass false => some ⟨pass.batch, pass.conflicts.toNat + 1⟩
  | .resting | .yielding | .answered _ true => none

/-- The writes that are begun by coming to this stage. -/
def begun : Stage → List Pass
  | .writing pass => [pass]
  | _ => []

/-- How a pass goes on. -/
inductive Next (retries : Nat) : Stage → Stage → Prop where
  | read (pass : Pass) : Next retries (.reading pass) (.writing pass)
  | reread (pass : Pass) : Next retries (.backingOff pass) (.reading pass)
  | rewrite (pass : Pass) : Next retries (.backingOff pass) (.writing pass)
  | backOff (pass : Pass) (conflicts : UInt32) (h : conflicts.toNat = pass.conflicts.toNat + 1)
    (hretries : conflicts.toNat ≤ retries) :
    Next retries (.answered pass false) (.backingOff { pass with conflicts })

/-- Where a loop may come to rest. -/
def CanRest (buffer : List Pending) : Stage → Prop
  | .resting | .reading _ | .answered _ _ => True
  | .yielding => buffer = []
  | .backingOff _ | .writing _ => False

/-- How a pass begins. -/
def Begins (pass : Pass) (s : Stage) : Prop := s = .reading pass ∨ s = .writing pass

end Stage

/-- What a process does for an engine. -/
inductive Duty where
  | off
  /-- A start waits for the store. -/
  | start (epoch : Nat)
  | loop (epoch : Nat) (stage : Stage)

namespace Duty

def epoch? : Duty → Option Nat
  | .off => none
  | .start epoch | .loop epoch _ => some epoch

def stage? : Duty → Option Stage
  | .loop _ stage => some stage
  | _ => none

def due? (d : Duty) : Option Due := d.stage?.bind Stage.due?

def begun : Duty → List Pass
  | .loop _ stage => stage.begun
  | _ => []

/-- A loop that is past its look at the epoch. -/
def IsUnderWay (d : Duty) : Prop := ∃ epoch stage, d = .loop epoch stage ∧ stage ≠ .resting

theorem isUnderWay_loop {epoch : Nat} {s : Stage} : (loop epoch s).IsUnderWay ↔ s ≠ .resting := by
  constructor
  · rintro ⟨epoch, s, heq, hs⟩
    cases heq
    exact hs
  · intro hs
    exact ⟨epoch, s, rfl, hs⟩

theorem not_isUnderWay_off : ¬ off.IsUnderWay := by
  rintro ⟨epoch, s, heq, -⟩
  cases heq

theorem not_isUnderWay_start {epoch : Nat} : ¬ (start epoch).IsUnderWay := by
  rintro ⟨epoch, s, heq, -⟩
  cases heq

theorem isUnderWay_of_due? {d : Duty} {due : Due} (h : d.due? = some due) : d.IsUnderWay := by
  cases d with
  | off | start => cases h
  | loop n s =>
    rw [isUnderWay_loop]
    rintro rfl
    cases h

/-- Nothing is due but what was due before. -/
def Continues (d earlier : Duty) : Prop :=
  ∀ due, d.due? = some due → ∃ due₀, earlier.due? = some due₀ ∧ due.Continues due₀

end Duty

structure Roster extends Control where
  tickets : Nat
  /-- By process. -/
  duty : Nat → Duty
  /-- The passes that began a write, the latest first. -/
  begun : List Pass
  /-- The batches that were written, the latest first. -/
  written : List (List Pending)

namespace Roster

def isCurrent (r : Roster) (epoch : Nat) : Bool := r.phase = .running && r.epoch = epoch

/-- A process takes on a duty. -/
def enter (r : Roster) (i : Nat) (d : Duty) : Roster :=
  { r with duty := Function.update r.duty i d, begun := d.begun ++ r.begun }

/-- A loop comes to rest, or leaves if its epoch is over. -/
def rest (r : Roster) (i epoch : Nat) : Roster :=
  r.enter i (if r.isCurrent epoch then .loop epoch .resting else .off)

/-- A start by some process, of a stopped engine. -/
inductive Begin (i : Nat) (r : Roster) : Roster → Prop where
  | begin (h : r.phase = .stopped) (hi : r.duty i = .off) :
    Begin i r { r.enter i (.start (r.epoch + 1)) with phase := .starting, epoch := r.epoch + 1 }

/-- Anything else that happens; the process that acts is named if there is one. -/
inductive Step (retries : Nat) : Option Nat → Roster → Roster → Prop where
  /-- Others may submit elsewhere. -/
  | elsewhere {actor : Option Nat} {r : Roster} (n : Nat) :
    Step retries actor r { r with tickets := r.tickets + n }
  | submit {actor : Option Nat} {r : Roster} (m : Mutation) (h : r.phase ≠ .stopped) :
    Step retries actor r { r with
      tickets := r.tickets + 1
      buffer := r.buffer ++ [⟨r.tickets, m⟩] }
  | stop {actor : Option Nat} {r : Roster} :
    Step retries actor r { r with phase := .stopped, epoch := r.epoch + 1, buffer := [] }
  /-- A start that failed, or came too late. -/
  | fail {r : Roster} (i n : Nat) (h : r.duty i = .start n) :
    Step retries (some i) r { r.enter i .off with
      phase := if r.epoch = n then .stopped else r.phase }
  /-- A start that made it; a broker's submits something at once. -/
  | run {r : Roster} (i j n : Nat) (ms : Option Mutation) (h : r.duty i = .start n)
    (hn : r.epoch = n) (hj : r.duty j = .off) :
    Step retries (some i) r { (r.enter i .off).enter j (.loop n .resting) with
      phase := .running
      tickets := r.tickets + ms.toList.length
      buffer := r.buffer ++ ms.toList.map (⟨r.tickets, ·⟩) }
  | wake {r : Roster} (i n : Nat) (h : r.duty i = .loop n .resting) (hn : r.isCurrent n) :
    Step retries (some i) r (r.enter i (.loop n .yielding))
  | rest {r : Roster} (i n : Nat) (s : Stage) (h : r.duty i = .loop n s)
    (hs : s.CanRest r.buffer) : Step retries (some i) r (r.rest i n)
  | drain {r : Roster} (i n : Nat) (s : Stage) (h : r.duty i = .loop n .yielding)
    (hbuffer : r.buffer ≠ []) (hs : s.Begins ⟨r.buffer, 0⟩) :
    Step retries (some i) r { r.enter i (.loop n s) with buffer := [] }
  | goOn {r : Roster} (i n : Nat) (s s' : Stage) (h : r.duty i = .loop n s)
    (hs : s.Next retries s') : Step retries (some i) r (r.enter i (.loop n s'))
  | land {r : Roster} (i n : Nat) (pass : Pass) (landed : Bool)
    (h : r.duty i = .loop n (.writing pass)) :
    Step retries (some i) r { r.enter i (.loop n (.answered pass landed)) with
      written := if landed then pass.batch :: r.written else r.written }

def empty : Roster := ⟨⟨.stopped, 0, []⟩, 0, fun _ => .off, [], []⟩

variable {retries : Nat} {actor : Option Nat} {r r' : Roster} {i j : Nat}

theorem duty_enter_self (r : Roster) (i : Nat) (d : Duty) : (r.enter i d).duty i = d :=
  Function.update_self ..

theorem duty_enter_of_ne (r : Roster) (d : Duty) (h : j ≠ i) : (r.enter i d).duty j = r.duty j :=
  Function.update_of_ne h ..

/-- A process goes on with the duty that it has. -/
theorem enter_of_eq {d : Duty} (h : r.duty i = d) (hbegun : d.begun = []) : r.enter i d = r := by
  rw [enter, hbegun, ← h, Function.update_eq_self]
  rfl

theorem enter_comm (h : i ≠ j) {d d' : Duty} (hd : d.begun = []) (hd' : d'.begun = []) :
    (r.enter i d).enter j d' = (r.enter j d').enter i d := by
  simp only [enter, hd, hd', Function.update_comm h]

/-! ## Epochs -/

/-- What a process may turn to without another epoch. -/
inductive Succeeds (retries : Nat) : Duty → Duty → Prop where
  | same (d : Duty) : Succeeds retries d d
  | off (d : Duty) : Succeeds retries d .off
  | loop (n : Nat) (s s' : Stage) (h : ∀ pass, s'.pass? = some pass → pass.conflicts.toNat ≤ retries) :
    Succeeds retries (.loop n s) (.loop n s')

theorem Succeeds.epoch?_eq {d d' : Duty} {n : Nat} (h : Succeeds retries d d')
    (hn : d'.epoch? = some n) : d.epoch? = some n := by
  cases h with
  | same => exact hn
  | off => cases hn
  | loop => exact hn

/-- Epochs tell starts and loops apart, and whoever belongs to the present one agrees with the
phase. -/
structure WellFormed (retries : Nat) (r : Roster) : Prop where
  bounded : ∀ i n, (r.duty i).epoch? = some n → n ≤ r.epoch
  unique : ∀ i j n, (r.duty i).epoch? = some n → (r.duty j).epoch? = some n → i = j
  starting : ∀ i, r.duty i = .start r.epoch → r.phase = .starting
  running : ∀ i s, r.duty i = .loop r.epoch s → r.phase = .running
  tried : ∀ i n s pass, r.duty i = .loop n s → s.pass? = some pass →
    pass.conflicts.toNat ≤ retries

theorem wellFormed_empty : Roster.empty.WellFormed retries where
  bounded _ _ h := by cases h
  unique _ _ _ h := by cases h
  starting _ h := by cases h
  running _ _ h := by cases h
  tried _ _ _ _ h := by cases h

theorem WellFormed.of_succeeds (h : r.WellFormed retries)
    (hduty : ∀ i, Succeeds retries (r.duty i) (r'.duty i)) (hepoch : r'.epoch = r.epoch)
    (hphase : r'.phase = r.phase ∨ ∀ i, (r'.duty i).epoch? ≠ some r.epoch) :
    r'.WellFormed retries where
  bounded := by
    intro i n hn
    rw [hepoch]
    exact h.bounded i n ((hduty i).epoch?_eq hn)
  unique := by
    intro i j n hi hj
    exact h.unique i j n ((hduty i).epoch?_eq hi) ((hduty j).epoch?_eq hj)
  starting := by
    intro i hi
    rw [hepoch] at hi
    rcases hphase with hsame | hnone
    · have hold := hduty i
      rw [hi] at hold
      rw [hsame]
      generalize hd : r.duty i = d at hold
      cases hold
      exact h.starting i hd
    · exact absurd (congrArg Duty.epoch? hi) (hnone i)
  running := by
    intro i s hi
    rw [hepoch] at hi
    rcases hphase with hsame | hnone
    · have hold := hduty i
      rw [hi] at hold
      rw [hsame]
      generalize hd : r.duty i = d at hold
      cases hold with
      | same => exact h.running i s hd
      | loop _ s₀ => exact h.running i s₀ hd
    · exact absurd (congrArg Duty.epoch? hi) (hnone i)
  tried := by
    intro i n s pass hi hpass
    have hold := hduty i
    rw [hi] at hold
    generalize hd : r.duty i = d at hold
    cases hold with
    | same => exact h.tried i n s pass hd hpass
    | loop _ s₀ _ htried => exact htried pass hpass

theorem succeeds_enter {d : Duty} (h : Succeeds retries (r.duty i) d) (j : Nat) :
    Succeeds retries (r.duty j) ((r.enter i d).duty j) := by
  by_cases hj : j = i
  · subst hj
    rw [duty_enter_self]
    exact h
  · rw [duty_enter_of_ne r d hj]
    exact .same _

theorem WellFormed.enter (h : r.WellFormed retries) {d : Duty}
    (hd : Succeeds retries (r.duty i) d) : (r.enter i d).WellFormed retries :=
  h.of_succeeds (succeeds_enter hd) rfl (.inl rfl)

/-- A new epoch, to which at most one process belongs. -/
theorem WellFormed.renew (h : r.WellFormed retries) {r' : Roster} (hepoch : r'.epoch = r.epoch + 1)
    (hduty : ∀ j, r'.duty j = r.duty j ∨ (j = i ∧ r'.duty j = .start r'.epoch ∧
      r'.phase = .starting)) : r'.WellFormed retries where
  bounded := by
    intro j n hn
    rcases hduty j with hold | ⟨-, hnew, -⟩
    · have := h.bounded j n (hold ▸ hn)
      omega
    · rw [hnew] at hn
      cases hn
      exact Nat.le_refl _
  unique := by
    intro j k n hj hk
    rcases hduty j with holdj | ⟨hji, hnewj, -⟩ <;> rcases hduty k with holdk | ⟨hki, hnewk, -⟩
    · exact h.unique j k n (holdj ▸ hj) (holdk ▸ hk)
    · rw [hnewk] at hk
      cases hk
      have := h.bounded j _ (holdj ▸ hj)
      omega
    · rw [hnewj] at hj
      cases hj
      have := h.bounded k _ (holdk ▸ hk)
      omega
    · exact hji.trans hki.symm
  starting := by
    intro j hj
    rcases hduty j with hold | ⟨-, -, hphase⟩
    · rw [hold] at hj
      have := h.bounded j _ (congrArg Duty.epoch? hj)
      omega
    · exact hphase
  running := by
    intro j s hj
    rcases hduty j with hold | ⟨-, hnew, -⟩
    · rw [hold] at hj
      have := h.bounded j _ (congrArg Duty.epoch? hj)
      omega
    · rw [hnew] at hj
      cases hj
  tried := by
    intro j n s pass hj
    rcases hduty j with hold | ⟨-, hnew, -⟩
    · exact h.tried j n s pass (hold ▸ hj)
    · rw [hnew] at hj
      cases hj

theorem WellFormed.begin (h : r.WellFormed retries) (hbegin : Begin i r r') :
    r'.WellFormed retries := by
  obtain ⟨-, hi⟩ := hbegin
  refine h.renew (i := i) rfl fun j => ?_
  by_cases hj : j = i
  · subst hj
    exact .inr ⟨rfl, duty_enter_self _ _ _, rfl⟩
  · exact .inl (duty_enter_of_ne _ _ hj)

/-- The process whose start of the present epoch is over was the only one of that epoch. -/
theorem WellFormed.epoch?_ne (h : r.WellFormed retries) (hi : r.duty i = .start r.epoch) (j : Nat) :
    ((r.enter i .off).duty j).epoch? ≠ some r.epoch := by
  intro hj
  by_cases hji : j = i
  · subst hji
    rw [duty_enter_self] at hj
    cases hj
  · rw [duty_enter_of_ne r .off hji] at hj
    exact hji (h.unique j i _ hj (congrArg Duty.epoch? hi))

theorem WellFormed.fail (h : r.WellFormed retries) {n : Nat} (hi : r.duty i = .start n) :
    WellFormed retries { r.enter i .off with
      phase := if r.epoch = n then .stopped else r.phase } := by
  refine h.of_succeeds (succeeds_enter (.off _)) rfl ?_
  by_cases hn : r.epoch = n
  · subst hn
    exact .inr (h.epoch?_ne hi)
  · rw [if_neg hn]
    exact .inl rfl

theorem WellFormed.run (h : r.WellFormed retries) (hi : r.duty i = .start r.epoch)
    (hr' : r'.duty = Function.update (r.enter i .off).duty j (.loop r.epoch .resting))
    (hepoch : r'.epoch = r.epoch) (hphase : r'.phase = .running) : r'.WellFormed retries := by
  have hoff := h.epoch?_ne hi
  have hended := h.enter (.off (r.duty i))
  have hcases (k : Nat) : (k = j ∧ r'.duty k = .loop r.epoch .resting) ∨
      r'.duty k = (r.enter i .off).duty k := by
    rw [hr']
    by_cases hk : k = j
    · subst hk
      exact .inl ⟨rfl, Function.update_self ..⟩
    · exact .inr (Function.update_of_ne hk ..)
  constructor
  · intro k n hk
    rw [hepoch]
    rcases hcases k with ⟨-, hnew⟩ | hold
    · rw [hnew] at hk
      cases hk
      exact Nat.le_refl _
    · exact hended.bounded k n (hold ▸ hk)
  · intro k l n hk hl
    rcases hcases k with ⟨hkj, hnewk⟩ | holdk <;> rcases hcases l with ⟨hlj, hnewl⟩ | holdl
    · exact hkj.trans hlj.symm
    · rw [hnewk] at hk
      cases hk
      exact absurd (holdl ▸ hl) (hoff l)
    · rw [hnewl] at hl
      cases hl
      exact absurd (holdk ▸ hk) (hoff k)
    · exact hended.unique k l n (holdk ▸ hk) (holdl ▸ hl)
  · intro k hk
    rw [hepoch] at hk
    rcases hcases k with ⟨-, hnew⟩ | hold
    · rw [hnew] at hk
      cases hk
    · exact absurd (congrArg Duty.epoch? (hold.symm.trans hk)) (hoff k)
  · intro k s _
    exact hphase
  · intro k n s pass hk hpass
    rcases hcases k with ⟨-, hnew⟩ | hold
    · rw [hnew] at hk
      cases hk
      cases hpass
    · exact hended.tried k n s pass (hold.symm.trans hk) hpass

theorem succeeds_rest (n : Nat) (s : Stage) :
    Succeeds retries (.loop n s) (if r.isCurrent n then .loop n .resting else .off) := by
  split
  · exact .loop n s .resting nofun
  · exact .off _

theorem WellFormed.step (h : r.WellFormed retries) (hstep : Step retries actor r r') :
    r'.WellFormed retries := by
  cases hstep with
  | elsewhere n => exact h.of_succeeds (fun _ => .same _) rfl (.inl rfl)
  | submit m hphase => exact h.of_succeeds (fun _ => .same _) rfl (.inl rfl)
  | stop => exact h.renew (i := 0) rfl fun j => .inl rfl
  | fail i n hi => exact h.fail hi
  | run i j n ms hi hn hj =>
    subst hn
    exact h.run hi rfl rfl rfl
  | wake i n hi hn => exact h.enter (hi ▸ .loop n .resting .yielding nofun)
  | rest i n s hi hs => exact h.enter (hi ▸ succeeds_rest n s)
  | drain i n s hi hbuffer hs =>
    have hentered : (r.enter i (.loop n s)).WellFormed retries := by
      refine h.enter (hi ▸ .loop n .yielding s ?_)
      intro pass hpass
      rcases hs with rfl | rfl <;> cases hpass <;> exact Nat.zero_le _
    exact hentered.of_succeeds (fun _ => .same _) rfl (.inl rfl)
  | goOn i n s s' hi hs =>
    refine h.enter (hi ▸ .loop n s s' ?_)
    intro pass' hpass'
    cases hs with
    | backOff pass conflicts hcount hretries =>
      cases hpass'
      exact hretries
    | read | reread | rewrite =>
      cases hpass'
      exact h.tried i n _ _ hi rfl
  | land i n pass landed hi =>
    have hentered : (r.enter i (.loop n (.answered pass landed))).WellFormed retries := by
      refine h.enter (hi ▸ .loop n (.writing pass) _ ?_)
      intro pass' hpass'
      cases hpass'
      exact h.tried i n _ pass hi rfl
    exact hentered.of_succeeds (fun _ => .same _) rfl (.inl rfl)

/-! ## One loop at a time -/

/-- A loop that may still do something: it is under way, or its epoch is not over. -/
def IsActive (r : Roster) (i : Nat) : Prop :=
  ∃ n s, r.duty i = .loop n s ∧ (s ≠ .resting ∨ r.isCurrent n)

def IsSingle (r : Roster) : Prop := ∀ i j, r.IsActive i → r.IsActive j → i = j

theorem isActive_of_isUnderWay (h : (r.duty i).IsUnderWay) : r.IsActive i := by
  obtain ⟨n, s, hi, hs⟩ := h
  exact ⟨n, s, hi, .inl hs⟩

/-- Who takes on a duty as a loop was an active one, or rests. -/
theorem IsActive.of_enter {n : Nat} {s s' : Stage} (hi : r.duty i = .loop n s)
    (hs : s ≠ .resting ∨ r.isCurrent n) (h : (r.enter i (.loop n s')).IsActive j) :
    r.IsActive j := by
  by_cases hj : j = i
  · subst hj
    exact ⟨n, s, hi, hs⟩
  · obtain ⟨m, t, hduty, ht⟩ := h
    rw [duty_enter_of_ne r _ hj] at hduty
    exact ⟨m, t, hduty, ht⟩

theorem IsActive.of_off (h : (r.enter i .off).IsActive j) : r.IsActive j := by
  by_cases hj : j = i
  · subst hj
    obtain ⟨m, t, hduty, -⟩ := h
    rw [duty_enter_self] at hduty
    cases hduty
  · obtain ⟨m, t, hduty, ht⟩ := h
    rw [duty_enter_of_ne r _ hj] at hduty
    exact ⟨m, t, hduty, ht⟩

theorem IsActive.of_rest {n : Nat} {s : Stage} (hi : r.duty i = .loop n s)
    (h : (r.rest i n).IsActive j) : r.IsActive j := by
  unfold rest at h
  split at h
  next hcurrent => exact h.of_enter hi (.inr hcurrent)
  · exact h.of_off

/-- Who is active in a roster of which the epoch is over was so before, being under way. -/
theorem IsActive.of_stopped (h : r'.IsActive j) (hduty : r'.duty = r.duty)
    (hphase : r'.phase ≠ .running) : r.IsActive j := by
  obtain ⟨n, s, hj, hs⟩ := h
  rw [hduty] at hj
  rcases hs with hs | hcurrent
  · exact ⟨n, s, hj, .inl hs⟩
  · rw [isCurrent, Bool.and_eq_true, decide_eq_true_eq] at hcurrent
    exact absurd hcurrent.1 hphase

theorem IsSingle.mono (h : r.IsSingle) (hactive : ∀ j, r'.IsActive j → r.IsActive j) :
    r'.IsSingle := by
  intro i j hi hj
  exact h i j (hactive i hi) (hactive j hj)

theorem IsSingle.begin (h : r.IsSingle) (hbegin : Begin i r r') : r'.IsSingle := by
  obtain ⟨hphase, hi⟩ := hbegin
  refine h.mono fun j hj => ?_
  by_cases hji : j = i
  · subst hji
    obtain ⟨m, t, hduty, -⟩ := hj
    rw [show ({ r.enter j _ with phase := _, epoch := _ } : Roster).duty j = _ from
      duty_enter_self r j _] at hduty
    cases hduty
  · obtain ⟨m, t, hduty, ht⟩ := hj
    rw [show ({ r.enter i _ with phase := _, epoch := _ } : Roster).duty j = _ from
      duty_enter_of_ne r _ hji] at hduty
    refine ⟨m, t, hduty, ?_⟩
    rcases ht with ht | hcurrent
    · exact .inl ht
    · cases hcurrent

/-- A loop that starts while none is under way is alone. -/
theorem IsSingle.run (hw : r.WellFormed retries) (hi : r.duty i = .start r.epoch)
    (hr' : r'.duty = Function.update (r.enter i .off).duty j (.loop r.epoch .resting))
    (hepoch : r'.epoch = r.epoch) (hcalm : ∀ k, ¬ (r.duty k).IsUnderWay) : r'.IsSingle := by
  have halone (k : Nat) (hk : r'.IsActive k) : k = j := by
    by_contra hkj
    obtain ⟨n, s, hduty, hs⟩ := hk
    rw [hr', Function.update_of_ne hkj] at hduty
    have hold : r.duty k = .loop n s := by
      by_cases hki : k = i
      · subst hki
        rw [duty_enter_self] at hduty
        cases hduty
      · rwa [duty_enter_of_ne r .off hki] at hduty
    rcases hs with hs | hcurrent
    · exact hcalm k ⟨n, s, hold, hs⟩
    · rw [isCurrent, Bool.and_eq_true, decide_eq_true_eq, decide_eq_true_eq, hepoch] at hcurrent
      have hn : (r.duty k).epoch? = some r.epoch := by rw [hold, hcurrent.2]; rfl
      have hki := hw.unique k i _ hn (congrArg Duty.epoch? hi)
      rw [hki, hi] at hold
      cases hold
  intro k l hk hl
  exact (halone k hk).trans (halone l hl).symm

theorem IsSingle.step (h : r.IsSingle) (hw : r.WellFormed retries)
    (hstep : Step retries actor r r')
    (hcalm : r.phase ≠ .running → r'.phase = .running → ∀ k, ¬ (r.duty k).IsUnderWay) :
    r'.IsSingle := by
  cases hstep with
  | elsewhere n => exact h
  | submit m hphase => exact h
  | stop => exact h.mono fun j hj => hj.of_stopped (r := r) rfl (by simp)
  | fail i n hi =>
    refine h.mono fun j hj => ?_
    by_cases hn : r.epoch = n
    · rw [if_pos hn] at hj
      have hstopped := hj.of_stopped (r := r.enter i .off) rfl (by simp)
      exact hstopped.of_off
    · rw [if_neg hn] at hj
      have hsame : (r.enter i .off).IsActive j := hj
      exact hsame.of_off
  | run i j n ms hi hn hj =>
    subst hn
    have hstarting := hw.starting i hi
    exact IsSingle.run hw hi rfl rfl (hcalm (by rw [hstarting]; exact nofun) rfl)
  | wake i n hi hn => exact h.mono fun j hj => hj.of_enter hi (.inr hn)
  | rest i n s hi hs => exact h.mono fun j hj => hj.of_rest hi
  | drain i n s hi hbuffer hs =>
    refine h.mono fun j hj => ?_
    have hentered : (r.enter i (.loop n s)).IsActive j := hj
    exact hentered.of_enter hi (.inl nofun)
  | goOn i n s s' hi hs =>
    refine h.mono fun j hj => hj.of_enter hi (.inl ?_)
    rintro rfl
    cases hs
  | land i n pass landed hi =>
    refine h.mono fun j hj => ?_
    have hentered : (r.enter i (.loop n (.answered pass landed))).IsActive j := hj
    exact hentered.of_enter hi (.inl nofun)

/-! ## What is due -/

theorem continues_refl (d : Duty) : d.Continues d :=
  fun due h => ⟨due, h, rfl, Nat.le_refl _⟩

theorem continues_trans {d₀ d₁ d₂ : Duty} (h₂ : d₂.Continues d₁) (h₁ : d₁.Continues d₀) :
    d₂.Continues d₀ := by
  intro due₂ hdue₂
  obtain ⟨due₁, hdue₁, hbatch₁, hconflicts₁⟩ := h₂ due₂ hdue₂
  obtain ⟨due₀, hdue₀, hbatch₀, hconflicts₀⟩ := h₁ due₁ hdue₁
  exact ⟨due₀, hdue₀, hbatch₁.trans hbatch₀, Nat.le_trans hconflicts₀ hconflicts₁⟩

theorem continues_of_none {d : Duty} (h : d.due? = none) (earlier : Duty) :
    d.Continues earlier := by
  intro due hdue
  rw [h] at hdue
  cases hdue

theorem continues_enter {d : Duty} (h : d.Continues (r.duty i)) (j : Nat) :
    ((r.enter i d).duty j).Continues (r.duty j) := by
  by_cases hj : j = i
  · subst hj
    rw [duty_enter_self]
    exact h
  · rw [duty_enter_of_ne r d hj]
    exact continues_refl _

theorem continues_rest (n : Nat) (j : Nat) : ((r.rest i n).duty j).Continues (r.duty j) := by
  apply continues_enter
  split <;> exact continues_of_none rfl _

theorem continues_next {n : Nat} {s s' : Stage} (h : s.Next retries s') :
    (Duty.loop n s').Continues (.loop n s) := by
  intro due hdue
  cases h with
  | read pass | rewrite pass =>
    cases hdue
    exact ⟨_, rfl, rfl, Nat.le_succ _⟩
  | reread pass =>
    cases hdue
    exact ⟨_, rfl, rfl, Nat.le_refl _⟩
  | backOff pass conflicts hcount hretries =>
    cases hdue
    exact ⟨_, rfl, rfl, Nat.le_of_eq hcount.symm⟩

theorem continues_land (n : Nat) (pass : Pass) (landed : Bool) :
    (Duty.loop n (.answered pass landed)).Continues (.loop n (.writing pass)) := by
  cases landed with
  | false => exact continues_refl _
  | true => exact continues_of_none rfl _

theorem continues_run {n : Nat} (hi : (Duty.loop n .resting).due? = none) (k : Nat) :
    (((r.enter i .off).enter j (.loop n .resting)).duty k).Continues (r.duty k) :=
  continues_trans (continues_enter (continues_of_none hi _) k)
    (continues_enter (continues_of_none rfl _) k)

/-! ## Order -/

/-- Submissions in order, with tickets from `m` on and before `n`. -/
structure IsRow (m n : Nat) (batch : List Pending) : Prop where
  ordered : batch.Pairwise (·.ticket < ·.ticket)
  bounds : ∀ p ∈ batch, m ≤ p.ticket ∧ p.ticket < n

theorem IsRow.nil (m n : Nat) : IsRow m n [] := ⟨.nil, nofun⟩

theorem IsRow.singleton (n : Nat) (m : Mutation) : IsRow n (n + 1) [⟨n, m⟩] := by
  refine ⟨List.pairwise_singleton _ _, ?_⟩
  intro p hp
  rw [List.mem_singleton] at hp
  subst hp
  exact ⟨Nat.le_refl n, Nat.lt_succ_self n⟩

theorem IsRow.mono {m n m' n' : Nat} {batch : List Pending} (h : IsRow m n batch) (hm : m' ≤ m)
    (hn : n ≤ n') : IsRow m' n' batch := by
  refine ⟨h.ordered, ?_⟩
  intro p hp
  obtain ⟨hlow, hhigh⟩ := h.bounds p hp
  exact ⟨Nat.le_trans hm hlow, Nat.lt_of_lt_of_le hhigh hn⟩

theorem IsRow.append {k m n : Nat} {first second : List Pending} (h₁ : IsRow k m first)
    (h₂ : IsRow m n second) (hkm : k ≤ m) (hmn : m ≤ n) : IsRow k n (first ++ second) := by
  constructor
  · rw [List.pairwise_append]
    refine ⟨h₁.ordered, h₂.ordered, ?_⟩
    intro p hp q hq
    exact Nat.lt_of_lt_of_le (h₁.bounds p hp).2 (h₂.bounds q hq).1
  · intro p hp
    rcases List.mem_append.1 hp with hp | hp
    · exact (h₁.mono (Nat.le_refl k) hmn).bounds p hp
    · exact (h₂.mono hkm (Nat.le_refl n)).bounds p hp

theorem IsRow.append_toList {m n : Nat} {batch : List Pending} (h : IsRow m n batch) (hmn : m ≤ n)
    (ms : Option Mutation) :
    IsRow m (n + ms.toList.length) (batch ++ ms.toList.map (⟨n, ·⟩)) := by
  cases ms with
  | none => exact h.append (.nil n n) hmn (Nat.le_refl n)
  | some mutation => exact h.append (.singleton n mutation) hmn (Nat.le_succ n)

/-- What is written comes before what is due, and that before what is buffered. -/
structure IsLined (r : Roster) (m n : Nat) : Prop where
  le_due : m ≤ n
  le_buffer : n ≤ r.tickets
  written : IsRow 0 m r.written.reverse.flatten
  due : ∀ i due, (r.duty i).due? = some due → IsRow m n due.batch
  buffer : IsRow n r.tickets r.buffer

def IsInLine (r : Roster) : Prop := ∃ m n, r.IsLined m n

variable {m n : Nat}

theorem IsLined.of_continues (h : r.IsLined m n) (hduty : ∀ i, (r'.duty i).Continues (r.duty i))
    (hwritten : r'.written = r.written) (htickets : r.tickets ≤ r'.tickets)
    (hbuffer : IsRow n r'.tickets r'.buffer) : r'.IsInLine := by
  refine ⟨m, n, h.le_due, Nat.le_trans h.le_buffer htickets, hwritten ▸ h.written, ?_, hbuffer⟩
  intro i due hdue
  obtain ⟨due₀, hdue₀, hbatch, -⟩ := hduty i due hdue
  rw [hbatch]
  exact h.due i due₀ hdue₀

theorem IsLined.of_enter (h : r.IsLined m n) {d : Duty} (hd : d.Continues (r.duty i)) :
    (r.enter i d).IsInLine :=
  h.of_continues (continues_enter hd) rfl (Nat.le_refl _) h.buffer

/-- What is due belongs to the one loop that is active. -/
theorem IsSingle.eq_of_due? (h : r.IsSingle) (hi : (r.duty i).IsUnderWay) {due : Due}
    (hj : (r.duty j).due? = some due) : j = i :=
  h j i (isActive_of_isUnderWay (Duty.isUnderWay_of_due? hj)) (isActive_of_isUnderWay hi)

theorem IsLined.drain (h : r.IsLined m n) (hsingle : r.IsSingle) {k : Nat} {s : Stage}
    (hi : r.duty i = .loop k .yielding) (hs : s.Begins ⟨r.buffer, 0⟩) :
    IsInLine { r.enter i (.loop k s) with buffer := [] } := by
  have hway : (r.duty i).IsUnderWay := ⟨k, .yielding, hi, nofun⟩
  refine ⟨n, r.tickets, h.le_buffer, Nat.le_refl _, h.written.mono (Nat.le_refl 0) h.le_due, ?_,
    .nil _ _⟩
  intro j due hdue
  have hdue : ((r.enter i (.loop k s)).duty j).due? = some due := hdue
  by_cases hj : j = i
  · subst hj
    rw [duty_enter_self] at hdue
    have hbatch : due.batch = r.buffer := by
      rcases hs with rfl | rfl <;> cases hdue <;> rfl
    rw [hbatch]
    exact h.buffer
  · rw [duty_enter_of_ne r _ hj] at hdue
    exact absurd (hsingle.eq_of_due? hway hdue) hj

theorem IsLined.land (h : r.IsLined m n) (hsingle : r.IsSingle) {k : Nat} {pass : Pass}
    (hi : r.duty i = .loop k (.writing pass)) :
    IsInLine { r.enter i (.loop k (.answered pass true)) with
      written := pass.batch :: r.written } := by
  have hway : (r.duty i).IsUnderWay := ⟨k, .writing pass, hi, nofun⟩
  have hdue : (r.duty i).due? = some ⟨pass.batch, pass.conflicts.toNat + 1⟩ := by
    rw [hi]
    rfl
  have hrow := h.due i _ hdue
  refine ⟨n, n, Nat.le_refl _, h.le_buffer, ?_, ?_, h.buffer⟩
  · rw [List.reverse_cons, List.flatten_append, List.flatten_singleton]
    exact h.written.append hrow (Nat.zero_le m) h.le_due
  · intro j due hdue
    have hdue : ((r.enter i (.loop k (.answered pass true))).duty j).due? = some due := hdue
    by_cases hj : j = i
    · subst hj
      rw [duty_enter_self] at hdue
      cases hdue
    · rw [duty_enter_of_ne r _ hj] at hdue
      exact absurd (hsingle.eq_of_due? hway hdue) hj

theorem IsInLine.step (h : r.IsInLine) (hsingle : r.IsSingle) (hstep : Step retries actor r r') :
    r'.IsInLine := by
  obtain ⟨m, n, h⟩ := h
  cases hstep with
  | elsewhere k =>
    have hmore : r.tickets ≤ r.tickets + k := Nat.le_add_right _ _
    exact h.of_continues (fun _ => continues_refl _) rfl hmore (h.buffer.mono (Nat.le_refl n) hmore)
  | submit mutation hphase =>
    exact h.of_continues (fun _ => continues_refl _) rfl (Nat.le_succ _)
      (h.buffer.append_toList h.le_buffer (some mutation))
  | stop => exact h.of_continues (fun _ => continues_refl _) rfl (Nat.le_refl _) (.nil _ _)
  | fail i k hi =>
    exact h.of_continues (continues_enter (continues_of_none rfl _)) rfl (Nat.le_refl _) h.buffer
  | run i j k ms hi hk hj =>
    exact h.of_continues (continues_run rfl) rfl (Nat.le_add_right _ _)
      (h.buffer.append_toList h.le_buffer ms)
  | wake i k hi hk => exact h.of_enter (continues_of_none rfl _)
  | rest i k s hi hs => exact h.of_continues (continues_rest k) rfl (Nat.le_refl _) h.buffer
  | drain i k s hi hbuffer hs => exact h.drain hsingle hi hs
  | goOn i k s s' hi hs => exact h.of_enter (hi ▸ continues_next hs)
  | land i k pass landed hi =>
    cases landed with
    | false => exact h.of_enter (hi ▸ continues_land k pass false)
    | true => exact h.land hsingle hi

theorem IsInLine.begin (h : r.IsInLine) (hbegin : Begin i r r') : r'.IsInLine := by
  obtain ⟨m, n, h⟩ := h
  obtain ⟨-, -⟩ := hbegin
  exact h.of_continues (continues_enter (continues_of_none rfl _)) rfl (Nat.le_refl _) h.buffer

theorem isSingle_empty : Roster.empty.IsSingle := by
  rintro i j ⟨n, s, hi, -⟩
  cases hi

theorem isInLine_empty : Roster.empty.IsInLine := by
  refine ⟨0, 0, Nat.le_refl 0, Nat.le_refl 0, .nil 0 0, ?_, .nil 0 0⟩
  intro i due hdue
  cases hdue

/-! ## A stopped engine -/

/-- A stopped engine is left with something buffered only by a start that fails. -/
theorem Step.buffer_of_stopped (hstep : Step retries actor r r')
    (hstopped : r'.phase = .stopped) (hbuffer : r'.buffer ≠ []) :
    r'.buffer = r.buffer ∧
      (r.phase = .stopped ∨ ∃ i, actor = some i ∧ r.duty i = .start r.epoch) := by
  cases hstep with
  | elsewhere n => exact ⟨rfl, .inl hstopped⟩
  | submit m hphase => exact absurd hstopped hphase
  | stop => exact absurd rfl hbuffer
  | fail i n hi =>
    refine ⟨rfl, ?_⟩
    by_cases hn : r.epoch = n
    · subst hn
      exact .inr ⟨i, rfl, hi⟩
    · rw [if_neg hn] at hstopped
      exact .inl hstopped
  | run => cases hstopped
  | wake => exact ⟨rfl, .inl hstopped⟩
  | rest => exact ⟨rfl, .inl hstopped⟩
  | drain => exact absurd rfl hbuffer
  | goOn => exact ⟨rfl, .inl hstopped⟩
  | land => exact ⟨rfl, .inl hstopped⟩

/-- No two processes have a write of the same batch before them. -/
def IsApart (r : Roster) : Prop :=
  ∀ i j p q, (r.duty i).due? = some p → (r.duty j).due? = some q → p.batch = q.batch → i = j

/-- What becomes of a stopped engine that is not started again, and the passes with which it begins
writes meanwhile, the latest first. -/
structure Winds (retries : Nat) (r r' : Roster) (more : List Pass) : Prop where
  phase : r'.phase = .stopped
  buffer : r'.buffer = []
  due : ∀ i, (r'.duty i).Continues (r.duty i)
  begun : r'.begun = more ++ r.begun
  carried : ∀ pass ∈ more, pass.conflicts.toNat ≤ retries ∧
    ∃ i due₀, (r.duty i).due? = some due₀ ∧ pass.due.Continues due₀
  /-- What is due comes after another conflict. -/
  ahead : ∀ pass ∈ more, ∀ i next, (r'.duty i).due? = some next → next.batch = pass.batch →
    pass.conflicts.toNat < next.conflicts
  rising : more.Pairwise fun later earlier =>
    later.batch = earlier.batch → earlier.conflicts < later.conflicts

variable {r₀ : Roster} {more : List Pass}

theorem Winds.refl (hphase : r.phase = .stopped) (hbuffer : r.buffer = []) :
    r.Winds retries r [] :=
  ⟨hphase, hbuffer, fun _ => continues_refl _, rfl, nofun, nofun, .nil⟩

theorem Winds.of_eq (h : r₀.Winds retries r more) (hphase : r'.phase = .stopped)
    (hbuffer : r'.buffer = []) (hduty : r'.duty = r.duty) (hbegun : r'.begun = r.begun) :
    r₀.Winds retries r' more :=
  ⟨hphase, hbuffer, hduty ▸ h.due, hbegun.trans h.begun, h.carried, hduty ▸ h.ahead, h.rising⟩

/-- A process turns to what was due, or to nothing, and begins no write. -/
theorem Winds.enter (h : r₀.Winds retries r more) {d : Duty} (hd : d.Continues (r.duty i))
    (hbegun : d.begun = []) : r₀.Winds retries (r.enter i d) more where
  phase := h.phase
  buffer := h.buffer
  due j := continues_trans (continues_enter hd j) (h.due j)
  begun := by
    rw [Roster.enter, hbegun]
    exact h.begun
  carried := h.carried
  ahead := by
    intro pass hpass j next hnext hbatch
    obtain ⟨earlier, hearlier, hsame, hconflicts⟩ := continues_enter hd j next hnext
    have hahead := h.ahead pass hpass j earlier hearlier (hsame.symm.trans hbatch)
    exact Nat.lt_of_lt_of_le hahead hconflicts
  rising := h.rising

/-- A loop begins the write that was due. -/
theorem Winds.write (h : r₀.Winds retries r more) (hapart : r₀.IsApart) {n : Nat} {pass : Pass}
    (hpass : (r.duty i).due? = some pass.due) (htried : pass.conflicts.toNat ≤ retries) :
    r₀.Winds retries (r.enter i (.loop n (.writing pass))) (pass :: more) := by
  have hwriting : (Duty.loop n (.writing pass)).Continues (r.duty i) := by
    intro next hnext
    cases hnext
    exact ⟨pass.due, hpass, rfl, Nat.le_succ _⟩
  refine ⟨h.phase, h.buffer, fun j => continues_trans (continues_enter hwriting j) (h.due j),
    congrArg (pass :: ·) h.begun, ?_, ?_, ?_⟩
  · intro p hp
    rcases List.mem_cons.1 hp with rfl | hp
    · exact ⟨htried, i, h.due i p.due hpass⟩
    · exact h.carried p hp
  · intro p hp j next hnext hbatch
    obtain ⟨earlier, hearlier, hsame, hconflicts⟩ := continues_enter hwriting j next hnext
    rcases List.mem_cons.1 hp with rfl | hp
    · -- the batch is due nowhere but with the process that begins its write
      obtain ⟨p₀, hp₀, hbatch₀, -⟩ := h.due i p.due hpass
      obtain ⟨q₀, hq₀, hbatch₁, -⟩ := h.due j earlier hearlier
      have hshared : p₀.batch = q₀.batch := by rw [← hbatch₀, ← hbatch₁, ← hsame, hbatch]; rfl
      obtain rfl := hapart i j p₀ q₀ hp₀ hq₀ hshared
      rw [duty_enter_self] at hnext
      cases hnext
      exact Nat.lt_succ_self _
    · have hahead := h.ahead p hp j earlier hearlier (hsame.symm.trans hbatch)
      exact Nat.lt_of_lt_of_le hahead hconflicts
  · refine List.pairwise_cons.2 ⟨fun p hp hbatch => ?_, h.rising⟩
    exact UInt32.lt_iff_toNat_lt.2 (h.ahead p hp i pass.due hpass hbatch)

theorem Winds.step (h : r₀.Winds retries r more) (hapart : r₀.IsApart)
    (hw : r.WellFormed retries) (hstep : Step retries actor r r') :
    ∃ more', r₀.Winds retries r' more' := by
  have hidle (n : Nat) : r.isCurrent n = false := by
    rw [isCurrent, h.phase]
    rfl
  cases hstep with
  | elsewhere n => exact ⟨more, h.of_eq h.phase h.buffer rfl rfl⟩
  | submit m hphase => exact absurd h.phase hphase
  | stop => exact ⟨more, h.of_eq rfl rfl rfl rfl⟩
  | fail i n hi =>
    have hended := h.enter (d := .off) (continues_of_none rfl (r.duty i)) rfl
    refine ⟨more, hended.of_eq ?_ h.buffer rfl rfl⟩
    show (if r.epoch = n then Phase.stopped else r.phase) = .stopped
    rw [h.phase, ite_self]
  | run i j n ms hi hn hj =>
    subst hn
    have hstarting := hw.starting i hi
    rw [h.phase] at hstarting
    cases hstarting
  | wake i n hi hn =>
    rw [hidle n] at hn
    cases hn
  | rest i n s hi hs =>
    rw [rest, hidle n]
    exact ⟨more, h.enter (continues_of_none rfl _) rfl⟩
  | drain i n s hi hbuffer hs => exact absurd h.buffer hbuffer
  | goOn i n s s' hi hs =>
    have hcontinues := continues_next (n := n) hs
    rw [← hi] at hcontinues
    cases hs with
    | read pass | rewrite pass =>
      have hdue : (r.duty i).due? = some pass.due := by
        rw [hi]
        rfl
      exact ⟨pass :: more, h.write hapart hdue (hw.tried i n _ pass hi rfl)⟩
    | reread | backOff => exact ⟨more, h.enter hcontinues rfl⟩
  | land i n pass landed hi =>
    have hlanded := h.enter (hi ▸ continues_land n pass landed) rfl
    exact ⟨more, hlanded.of_eq h.phase h.buffer rfl rfl⟩

end Roster

end LeaseQueue.Engine
