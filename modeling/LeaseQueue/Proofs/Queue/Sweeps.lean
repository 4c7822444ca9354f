import LeaseQueue.Proofs.Queue.Batches

/-!
# Sweeps

A sweep takes back the leases of whoever was last heard of before its cutoff, `now - timeout`.  A
job is taken back once, so of two sweeps only the one with the later cutoff counts, whichever comes
first:

  `cutoff now timeout ≤ cutoff now' timeout' →`
  `(d.sweep now timeout).sweep now' timeout' = d.sweep now' timeout'`

and the same holds of any number of them (`sweepAll_eq_sweep`), as long as no difference of times
wraps around.
-/

namespace LeaseQueue

/-- Leases that were last renewed before this moment are stale. -/
def Millis.cutoff (now timeout : Millis) : Int := now.toInt - timeout.toInt

/-- When a sweep is made, and after which time it takes leases back. -/
structure Sweep where
  now : Millis
  timeout : Millis
deriving DecidableEq, Repr

def Sweep.cutoff (s : Sweep) : Int := Millis.cutoff s.now s.timeout

open Millis (cutoff)

namespace Job

variable {j j' : Job} {now now' timeout timeout' : Millis}

/-- How long the holder of the job has been silent can be told at this time. -/
def IsInReach (j : Job) (now : Millis) : Prop := ∀ lease ∈ j.lease?, now.IsWithin lease.heartbeat

theorem IsInReach.swept (h : j.IsInReach now) {time : Millis}
    (hswept : j.swept time timeout = some j') : j'.IsInReach now := by
  unfold Job.swept at hswept
  split at hswept
  · split at hswept
    · cases hswept
    · cases hswept
      exact nofun
  · cases hswept
    exact h

theorem isStale_iff (hj : j.IsInReach now) : j.isStale now timeout ↔
    ∃ lease ∈ j.lease?, lease.heartbeat.toInt < cutoff now timeout := by
  rw [isStale, Option.any_eq_true]
  refine exists_congr fun lease => and_congr_right fun hlease => ?_
  rw [Millis.isPast_iff (hj lease hlease), Millis.IsTrulyPast, cutoff]
  omega

/-- What is stale at a sweep is stale at a later cutoff. -/
theorem isStale_mono (hj : j.IsInReach now) (hj' : j.IsInReach now')
    (h : cutoff now timeout ≤ cutoff now' timeout') (hstale : j.isStale now timeout) :
    j.isStale now' timeout' := by
  obtain ⟨lease, hlease, hbefore⟩ := (isStale_iff hj).1 hstale
  exact (isStale_iff hj').2 ⟨lease, hlease, Int.lt_of_lt_of_le hbefore h⟩

/-- An earlier cutoff makes no difference to a later one. -/
theorem swept_bind_of_le (hj : j.IsInReach now) (hj' : j.IsInReach now')
    (h : cutoff now timeout ≤ cutoff now' timeout') :
    (j.swept now timeout).bind (swept now' timeout') = j.swept now' timeout' := by
  by_cases hstale : j.isStale now timeout
  · have hlater := isStale_mono hj hj' h hstale
    by_cases hspent : j.attemptLimit ≤ j.attempts
    · simp only [swept, if_pos hstale, if_pos hlater, if_pos hspent, Option.bind_none]
    · -- The job waits after the first sweep, and nobody takes back what waits.
      have hwaits : isStale { j with status := .unclaimed } now' timeout' = false :=
        isStale_of_isUnclaimed rfl now' timeout'
      simp only [swept, if_pos hstale, if_pos hlater, if_neg hspent, Option.bind_some, hwaits,
        if_neg Bool.false_ne_true]
  · rw [swept_of_not_isStale (Bool.not_eq_true _ ▸ hstale), Option.bind_some]

/-- Whatever an earlier cutoff would take back has been taken back by a later one. -/
theorem swept_bind_of_ge (hj : j.IsInReach now) (hj' : j.IsInReach now')
    (h : cutoff now' timeout' ≤ cutoff now timeout) :
    (j.swept now timeout).bind (swept now' timeout') = j.swept now timeout := by
  cases hswept : j.swept now timeout with
  | none => rfl
  | some k =>
    have hkept : k.isStale now' timeout' = false := by
      refine Bool.eq_false_iff.2 fun hstale => ?_
      have hlater := isStale_mono (hj'.swept hswept) (hj.swept hswept) h hstale
      rw [isStale_of_swept hswept] at hlater
      cases hlater
    exact swept_of_not_isStale hkept

end Job

namespace Document

variable {d : Document} {now now' timeout timeout' : Millis}

/-- How long anyone has been silent can be told at this time. -/
def IsInReach (d : Document) (now : Millis) : Prop := ∀ j ∈ d.jobs, j.IsInReach now

theorem IsInReach.sweep (h : d.IsInReach now) (time timeout : Millis) :
    (d.sweep time timeout).IsInReach now := by
  intro j hj
  obtain ⟨k, hk, hswept⟩ := List.mem_filterMap.1 hj
  exact (h k hk).swept hswept

section Two

variable (hd : d.IsInReach now) (hd' : d.IsInReach now')

include hd hd'

theorem sweep_sweep_of_le (h : cutoff now timeout ≤ cutoff now' timeout') :
    (d.sweep now timeout).sweep now' timeout' = d.sweep now' timeout' := by
  simp only [sweep, List.filterMap_filterMap]
  rw [List.filterMap_congr fun j hj => Job.swept_bind_of_le (hd j hj) (hd' j hj) h]

theorem sweep_sweep_of_ge (h : cutoff now' timeout' ≤ cutoff now timeout) :
    (d.sweep now timeout).sweep now' timeout' = d.sweep now timeout := by
  simp only [sweep, List.filterMap_filterMap]
  rw [List.filterMap_congr fun j hj => Job.swept_bind_of_ge (hd j hj) (hd' j hj) h]

end Two

/-! ## Many sweeps -/

/-- One sweep after another. -/
def sweepAll (d : Document) (sweeps : List Sweep) : Document :=
  sweeps.foldl (fun d s => d.sweep s.now s.timeout) d

/-- Sweeps before the latest cutoff do not matter. -/
theorem sweep_sweepAll {sweeps : List Sweep} {s : Sweep} (hs : d.IsInReach s.now)
    (h : ∀ r ∈ sweeps, d.IsInReach r.now ∧ r.cutoff ≤ s.cutoff) :
    (d.sweepAll sweeps).sweep s.now s.timeout = d.sweep s.now s.timeout := by
  induction sweeps generalizing d with
  | nil => rfl
  | cons r sweeps ih =>
    obtain ⟨⟨hd, hr⟩, hsweeps⟩ := List.forall_mem_cons.1 h
    have hrest := ih (hs.sweep r.now r.timeout) fun q hq =>
      ⟨(hsweeps q hq).1.sweep r.now r.timeout, (hsweeps q hq).2⟩
    exact hrest.trans (sweep_sweep_of_le hd hs hr)

/-- Sweeps after the latest cutoff do not matter either. -/
theorem sweepAll_sweep {sweeps : List Sweep} {s : Sweep} (hs : d.IsInReach s.now)
    (h : ∀ r ∈ sweeps, d.IsInReach r.now ∧ r.cutoff ≤ s.cutoff) :
    (d.sweep s.now s.timeout).sweepAll sweeps = d.sweep s.now s.timeout := by
  induction sweeps with
  | nil => rfl
  | cons r sweeps ih =>
    obtain ⟨⟨hd, hr⟩, hsweeps⟩ := List.forall_mem_cons.1 h
    have hfirst := sweep_sweep_of_ge hs hd hr
    exact (congrArg (sweepAll · sweeps) hfirst).trans (ih hsweeps)

/-- **Of any number of sweeps only one with the latest cutoff counts**, wherever it comes. -/
theorem sweepAll_eq_sweep {sweeps : List Sweep} {s : Sweep} (hs : s ∈ sweeps)
    (h : ∀ r ∈ sweeps, d.IsInReach r.now ∧ r.cutoff ≤ s.cutoff) :
    d.sweepAll sweeps = d.sweep s.now s.timeout := by
  have hd := (h s hs).1
  obtain ⟨earlier, later, rfl⟩ := List.append_of_mem hs
  have hearlier := fun r hr => h r (List.mem_append_left _ hr)
  have hlater := fun r hr => h r (List.mem_append_right _ (List.mem_cons_of_mem _ hr))
  calc d.sweepAll (earlier ++ s :: later)
      = ((d.sweepAll earlier).sweep s.now s.timeout).sweepAll later := List.foldl_append
    _ = (d.sweep s.now s.timeout).sweepAll later := by rw [sweep_sweepAll hd hearlier]
    _ = d.sweep s.now s.timeout := sweepAll_sweep hd hlater

/-! ## Two sweeps -/

/-- What two sweeps of a document come to. -/
structure SweptTwice (d : Document) (now timeout now' timeout' : Millis) : Prop where
  commute : (d.sweep now timeout).sweep now' timeout' = (d.sweep now' timeout').sweep now timeout
  /-- The one with the later cutoff is as good as both. -/
  latest : (d.sweep now timeout).sweep now' timeout' =
    if cutoff now timeout ≤ cutoff now' timeout' then d.sweep now' timeout' else d.sweep now timeout
  again : (d.sweep now timeout).sweep now timeout = d.sweep now timeout
  /-- Before a sweep one may skip those that came earlier and had the same timeout. -/
  skip : timeout = timeout' → now ≤ now' →
    (d.sweep now timeout).sweep now' timeout' = d.sweep now' timeout'

/-- **Sweeps compose and commute**, as long as no difference of times wraps. -/
theorem sweptTwice (d : Document) (now timeout now' timeout' : Millis) (hd : d.IsInReach now)
    (hd' : d.IsInReach now') : d.SweptTwice now timeout now' timeout' where
  commute := by
    rcases Int.le_total (cutoff now timeout) (cutoff now' timeout') with hle | hge
    · rw [sweep_sweep_of_le hd hd' hle, sweep_sweep_of_ge hd' hd hle]
    · rw [sweep_sweep_of_ge hd hd' hge, sweep_sweep_of_le hd' hd hge]
  latest := by
    split
    next hle => exact sweep_sweep_of_le hd hd' hle
    next hlt => exact sweep_sweep_of_ge hd hd' (Int.le_of_lt (Int.not_le.1 hlt))
  again := sweep_sweep_of_le hd hd (Int.le_refl _)
  skip := by
    rintro rfl hnow
    exact sweep_sweep_of_le hd hd' (Int.sub_le_sub_right (Int64.le_iff_toInt_le.1 hnow) _)

/-- Three jobs: one waits, one has had its attempts and the other may be tried again. -/
def shift : Document :=
  let job (id : JobId) (status : Job.Status) (attempts : UInt32) : Job :=
    ⟨id, status, .null, none, 0, attempts, none⟩
  ⟨none, 0, [job "0" .unclaimed 0, job "1" (.inProgress ⟨"first", 10⟩) 3,
    job "2" (.inProgress ⟨"second", 40⟩) 1], 0⟩

/-- The earlier of two sweeps has the later cutoff. -/
theorem sweptTwice_shift :
    shift.IsInReach 100 ∧ shift.IsInReach 90 ∧ shift.SweptTwice 100 80 90 30 ∧
      ((shift.sweep 100 80).sweep 90 30).jobs.map (fun j => (j.id, j.isUnclaimed)) =
        [("0", true), ("2", true)] := by
  have hwithin (now : Millis) (hnow : now.IsWithin 10 ∧ now.IsWithin 40) : shift.IsInReach now := by
    intro j hj lease hlease
    simp only [shift, List.mem_cons, List.not_mem_nil, or_false] at hj
    rcases hj with rfl | rfl | rfl <;> cases hlease
    · exact hnow.1
    · exact hnow.2
  have hearlier := hwithin 100 (by decide)
  have hlater := hwithin 90 (by decide)
  exact ⟨hearlier, hlater, sweptTwice shift 100 80 90 30 hearlier hlater, by decide⟩

end Document

end LeaseQueue
