import LeaseQueue.Proofs.Cluster.Background
import LeaseQueue.Proofs.Runs

/-!
# The moments of a run

A run passes through moments: each act, with the cluster that it finds.

  `c.trail (act :: acts) = ⟨c, act⟩ :: (c.step act).trail acts`

That one thing happens before another is said of the trail of a run: `[m, m'].Sublist (c.trail acts)`.
-/

namespace LeaseQueue.Cluster

/-- An act, and what it finds. -/
structure Moment where
  before : Cluster
  act : Act

def Moment.after (m : Moment) : Cluster := m.before.step m.act

def trail (c : Cluster) : List Act → List Moment
  | [] => []
  | act :: acts => ⟨c, act⟩ :: (c.step act).trail acts

variable {c : Cluster} {acts : List Act} {m m' : Moment}

/-! ## A cluster is a machine -/

def Moment.toRun (m : Moment) : Run.Moment Cluster Act := ⟨m.before, m.act⟩

theorem Moment.toRun_injective : Function.Injective Moment.toRun := by
  rintro ⟨c, act⟩ ⟨c', act'⟩ h
  cases h
  rfl

theorem map_trail (c : Cluster) (acts : List Act) :
    (c.trail acts).map Moment.toRun = Run.trail step c acts := by
  induction acts generalizing c with
  | nil => rfl
  | cons act acts ih => exact congrArg (_ :: ·) (ih (c.step act))

theorem mem_trail_iff : m ∈ c.trail acts ↔ m.toRun ∈ Run.trail step c acts := by
  rw [← map_trail, List.mem_map_of_injective Moment.toRun_injective]

theorem sublist_trail_iff {moments : List Moment} :
    moments.Sublist (c.trail acts) ↔ (moments.map Moment.toRun).Sublist (Run.trail step c acts) := by
  rw [← map_trail, List.sublist_map_iff]
  constructor
  · exact fun h => ⟨moments, h, rfl⟩
  · rintro ⟨moments', h, heq⟩
    rw [List.map_injective_iff.2 Moment.toRun_injective heq]
    exact h

/-! ## Runs that grow at the end -/

theorem run_concat (c : Cluster) (acts : List Act) (act : Act) :
    c.run (acts ++ [act]) = (c.run acts).step act := run_append ..

/-- What holds at first, and after each step if it held before, holds throughout a run. -/
theorem run_induction {P : Cluster → Prop} (h : P c) (hstep : ∀ c act, P c → P (c.step act))
    (acts : List Act) : P (c.run acts) :=
  Run.run_induction h hstep acts

/-- What holds after a run held before it, or came about at some moment of it. -/
theorem exists_moment {P : Cluster → Prop} {Q : Moment → Prop}
    (hstep : ∀ m : Moment, P m.after → P m.before ∨ Q m) (h : P (c.run acts)) :
    P c ∨ ∃ m ∈ c.trail acts, Q m := by
  rcases Run.exists_moment (Q := fun r => Q ⟨r.before, r.act⟩) (fun r => hstep ⟨r.before, r.act⟩) h
    with hfirst | ⟨r, hr, hQ⟩
  · exact .inl hfirst
  · exact .inr ⟨⟨r.before, r.act⟩, mem_trail_iff.2 hr, hQ⟩

theorem trail_append (c : Cluster) (acts more : List Act) :
    c.trail (acts ++ more) = c.trail acts ++ (c.run acts).trail more := by
  apply List.map_injective_iff.2 Moment.toRun_injective
  rw [List.map_append, map_trail, map_trail, map_trail]
  exact Run.trail_append step c acts more

theorem trail_concat (c : Cluster) (acts : List Act) (act : Act) :
    c.trail (acts ++ [act]) = c.trail acts ++ [⟨c.run acts, act⟩] := trail_append ..

theorem mem_trail_concat {act : Act} :
    m ∈ c.trail (acts ++ [act]) ↔ m ∈ c.trail acts ∨ m = ⟨c.run acts, act⟩ := by
  rw [trail_concat, List.mem_append, List.mem_singleton]

/-! ## Where a moment stands -/

theorem mem_trail :
    m ∈ c.trail acts ↔
      ∃ earlier later, acts = earlier ++ m.act :: later ∧ m.before = c.run earlier :=
  mem_trail_iff.trans Run.mem_trail

/-- What holds after every run holds at every moment of it. -/
theorem forall_trail {P : Cluster → Prop} (h : ∀ acts, P (c.run acts)) :
    ∀ m ∈ c.trail acts, P m.before :=
  fun m hm => Run.forall_trail h m.toRun (mem_trail_iff.1 hm)

theorem sublist_trail :
    [m, m'].Sublist (c.trail acts) ↔
      ∃ earlier between later, acts = earlier ++ m.act :: (between ++ m'.act :: later) ∧
        m.before = c.run earlier ∧ m'.before = m.after.run between :=
  sublist_trail_iff.trans Run.sublist_trail

/-- Of two moments of a run one is the earlier one, unless they are the same. -/
theorem eq_or_sublist_trail (hm : m ∈ c.trail acts) (hm' : m' ∈ c.trail acts) :
    m = m' ∨ [m, m'].Sublist (c.trail acts) ∨ [m', m].Sublist (c.trail acts) := by
  rw [sublist_trail_iff, sublist_trail_iff]
  exact (Run.eq_or_sublist_trail (mem_trail_iff.1 hm) (mem_trail_iff.1 hm')).imp_left
    fun heq => Moment.toRun_injective heq

/-- What happens before a moment of a run. -/
theorem exists_before (hm : m ∈ c.trail acts) :
    ∃ before, m.before = c.run before ∧
      ∀ earlier, earlier.Sublist (c.trail before) → (earlier ++ [m]).Sublist (c.trail acts) := by
  obtain ⟨before, hbefore, hextend⟩ := Run.exists_before (mem_trail_iff.1 hm)
  refine ⟨before, hbefore, fun earlier hearlier => sublist_trail_iff.2 ?_⟩
  rw [List.map_append]
  exact hextend _ (sublist_trail_iff.1 hearlier)

/-- What happens between two moments of a run. -/
theorem exists_between (h : [m, m'].Sublist (c.trail acts)) :
    ∃ between, m'.before = m.after.run between ∧
      ∀ w ∈ m.after.trail between, [m, w, m'].Sublist (c.trail acts) := by
  obtain ⟨between, hbetween, hextend⟩ := Run.exists_between (sublist_trail_iff.1 h)
  exact ⟨between, hbetween, fun w hw => sublist_trail_iff.2 (hextend w.toRun (mem_trail_iff.1 hw))⟩

/-- What a run does to any cluster, it does between two of its moments. -/
theorem rel_of_sublist {R : Cluster → Cluster → Prop} (hrun : ∀ c acts, R c (c.run acts))
    (h : [m, m'].Sublist (c.trail acts)) : R m.after m'.before :=
  Run.rel_of_sublist hrun (sublist_trail_iff.1 h)

theorem pairwise_trail {R : Moment → Moment → Prop}
    (h : ∀ m m', [m, m'].Sublist (c.trail acts) → R m m') : (c.trail acts).Pairwise R :=
  List.pairwise_iff_forall_sublist.2 fun {m m'} => h m m'

end LeaseQueue.Cluster
