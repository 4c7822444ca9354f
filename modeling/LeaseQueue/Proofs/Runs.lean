import Mathlib.Data.List.Induction
import Mathlib.Data.List.Basic

/-!
# Runs and their moments

A machine makes a step for every act.  Its run passes through moments: each act, with the state that
it finds.

  `trail step s (act :: acts) = ⟨s, act⟩ :: trail step (step s act) acts`

That one thing happens before another is said of the trail: `[m, m'].Sublist (trail step s acts)`.
-/

namespace LeaseQueue.Run

/-- An act, and what it finds. -/
structure Moment (S A : Type) where
  before : S
  act : A

variable {S A : Type}

def Moment.after (step : S → A → S) (m : Moment S A) : S := step m.before m.act

def run (step : S → A → S) (s : S) (acts : List A) : S := acts.foldl step s

def trail (step : S → A → S) (s : S) : List A → List (Moment S A)
  | [] => []
  | act :: acts => ⟨s, act⟩ :: trail step (step s act) acts

variable {step : S → A → S} {s : S} {acts : List A} {m m' : Moment S A}

/-! ## Runs that grow at the end -/

theorem run_append (step : S → A → S) (s : S) (acts more : List A) :
    run step s (acts ++ more) = run step (run step s acts) more := List.foldl_append

theorem run_concat (step : S → A → S) (s : S) (acts : List A) (act : A) :
    run step s (acts ++ [act]) = step (run step s acts) act := run_append ..

/-- What holds at first, and after each step if it held before, holds throughout a run. -/
theorem run_induction {P : S → Prop} (h : P s) (hstep : ∀ s act, P s → P (step s act))
    (acts : List A) : P (run step s acts) := by
  induction acts generalizing s with
  | nil => exact h
  | cons act acts ih => exact ih (hstep s act h)

/-- What holds after a run held before it, or came about at some moment of it. -/
theorem exists_moment {P : S → Prop} {Q : Moment S A → Prop}
    (hstep : ∀ m : Moment S A, P (m.after step) → P m.before ∨ Q m) (h : P (run step s acts)) :
    P s ∨ ∃ m ∈ trail step s acts, Q m := by
  induction acts generalizing s with
  | nil => exact .inl h
  | cons act acts ih =>
    rcases ih h with hfirst | ⟨m, hm, hQ⟩
    · exact (hstep ⟨s, act⟩ hfirst).imp_right fun hQ => ⟨_, List.mem_cons_self, hQ⟩
    · exact .inr ⟨m, List.mem_cons_of_mem _ hm, hQ⟩

theorem trail_append (step : S → A → S) (s : S) (acts more : List A) :
    trail step s (acts ++ more) = trail step s acts ++ trail step (run step s acts) more := by
  induction acts generalizing s with
  | nil => rfl
  | cons act acts ih => exact congrArg (_ :: ·) (ih (step s act))

theorem trail_concat (step : S → A → S) (s : S) (acts : List A) (act : A) :
    trail step s (acts ++ [act]) = trail step s acts ++ [⟨run step s acts, act⟩] := trail_append ..

theorem mem_trail_concat {act : A} :
    m ∈ trail step s (acts ++ [act]) ↔ m ∈ trail step s acts ∨ m = ⟨run step s acts, act⟩ := by
  rw [trail_concat, List.mem_append, List.mem_singleton]

/-! ## Where a moment stands -/

theorem mem_trail :
    m ∈ trail step s acts ↔
      ∃ earlier later, acts = earlier ++ m.act :: later ∧ m.before = run step s earlier := by
  constructor
  · intro h
    induction acts generalizing s with
    | nil => cases h
    | cons act acts ih =>
      rcases List.mem_cons.1 h with rfl | h
      · exact ⟨[], acts, rfl, rfl⟩
      · obtain ⟨earlier, later, rfl, hbefore⟩ := ih h
        exact ⟨act :: earlier, later, rfl, hbefore⟩
  · rintro ⟨earlier, later, rfl, hbefore⟩
    rw [trail_append]
    refine List.mem_append_right _ ?_
    rw [trail, ← hbefore]
    exact List.mem_cons_self

/-- What holds after every run holds at every moment of it. -/
theorem forall_trail {P : S → Prop} (h : ∀ acts, P (run step s acts)) :
    ∀ m ∈ trail step s acts, P m.before := by
  intro m hm
  obtain ⟨earlier, -, -, hbefore⟩ := mem_trail.1 hm
  rw [hbefore]
  exact h earlier

theorem sublist_trail :
    [m, m'].Sublist (trail step s acts) ↔
      ∃ earlier between later, acts = earlier ++ m.act :: (between ++ m'.act :: later) ∧
        m.before = run step s earlier ∧ m'.before = run step (m.after step) between := by
  constructor
  · intro h
    induction acts generalizing s with
    | nil => cases h
    | cons act acts ih =>
      rcases List.cons_sublist_cons'.1 h with hskip | ⟨rfl, hmem⟩
      · obtain ⟨earlier, between, later, rfl, hbefore, hbetween⟩ := ih hskip
        exact ⟨act :: earlier, between, later, rfl, hbefore, hbetween⟩
      · obtain ⟨between, later, rfl, hbetween⟩ := mem_trail.1 (List.singleton_sublist.1 hmem)
        exact ⟨[], between, later, rfl, rfl, hbetween⟩
  · rintro ⟨earlier, between, later, rfl, hbefore, hbetween⟩
    rw [trail_append]
    refine List.Sublist.trans ?_ (List.sublist_append_right _ _)
    rw [trail, ← hbefore]
    refine List.Sublist.cons_cons _ (List.singleton_sublist.2 ?_)
    exact mem_trail.2 ⟨between, later, rfl, hbetween⟩

/-- Of two moments of a run one is the earlier one, unless they are the same. -/
theorem eq_or_sublist_trail (hm : m ∈ trail step s acts) (hm' : m' ∈ trail step s acts) :
    m = m' ∨ [m, m'].Sublist (trail step s acts) ∨ [m', m].Sublist (trail step s acts) := by
  generalize trail step s acts = moments at hm hm'
  induction moments with
  | nil => cases hm
  | cons first rest ih =>
    rcases List.mem_cons.1 hm with rfl | hrest <;> rcases List.mem_cons.1 hm' with rfl | hrest'
    · exact .inl rfl
    · exact .inr (.inl ((List.singleton_sublist.2 hrest').cons_cons _))
    · exact .inr (.inr ((List.singleton_sublist.2 hrest).cons_cons _))
    · exact (ih hrest hrest').imp_right (Or.imp (List.Sublist.cons _) (List.Sublist.cons _))

/-- What happens before a moment of a run. -/
theorem exists_before (hm : m ∈ trail step s acts) :
    ∃ before, m.before = run step s before ∧ ∀ earlier, earlier.Sublist (trail step s before) →
      (earlier ++ [m]).Sublist (trail step s acts) := by
  obtain ⟨before, later, rfl, hbefore⟩ := mem_trail.1 hm
  refine ⟨before, hbefore, fun earlier hearlier => ?_⟩
  rw [trail_append]
  refine hearlier.append (List.singleton_sublist.2 ?_)
  rw [trail, ← hbefore]
  exact List.mem_cons_self

/-- A run goes on from each of its moments. -/
theorem exists_rest (hm : m ∈ trail step s acts) :
    ∃ rest, run step s acts = run step (m.after step) rest := by
  obtain ⟨earlier, rest, rfl, hbefore⟩ := mem_trail.1 hm
  refine ⟨rest, ?_⟩
  rw [run_append, ← hbefore]
  rfl

/-- What happens between two moments of a run. -/
theorem exists_between (h : [m, m'].Sublist (trail step s acts)) :
    ∃ between, m'.before = run step (m.after step) between ∧
      ∀ w ∈ trail step (m.after step) between, [m, w, m'].Sublist (trail step s acts) := by
  obtain ⟨earlier, between, later, rfl, hbefore, hbetween⟩ := sublist_trail.1 h
  refine ⟨between, hbetween, fun w hw => ?_⟩
  have hw' : [w].Sublist (trail step (m.after step) between) := List.singleton_sublist.2 hw
  have hlast : [m'].Sublist (trail step m'.before (m'.act :: later)) :=
    List.singleton_sublist.2 List.mem_cons_self
  have hrest : [w, m'].Sublist (trail step (m.after step) (between ++ m'.act :: later)) := by
    rw [trail_append, ← hbetween]
    exact hw'.append hlast
  rw [trail_append]
  refine List.Sublist.trans ?_ (List.sublist_append_right _ _)
  rw [trail, ← hbefore]
  exact hrest.cons_cons _

/-- What a run does to any state, it does between two of its moments. -/
theorem rel_of_sublist {R : S → S → Prop} (hrun : ∀ s acts, R s (run step s acts))
    (h : [m, m'].Sublist (trail step s acts)) : R (m.after step) m'.before := by
  obtain ⟨between, hbetween, -⟩ := exists_between h
  rw [hbetween]
  exact hrun (m.after step) between

end LeaseQueue.Run
