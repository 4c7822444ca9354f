import LeaseQueue.Queue.Document

/-!
# Claims in a row

Whoever asks for a job gets the first one that waits and is of the right type, so a row of claims
hands out these jobs one by one, in the order in which they stand, and then nothing:

  `(d.claimAll types askers).2 =`
  `  ((d.eligible types).take askers.length).map (some ·.toClaimed) ++ [none, none, …]`

A job that is handed out is not eligible any more, so the claims can be followed along the jobs
instead of one after another: each eligible job takes the next asker.
-/

namespace LeaseQueue

/-- Somebody who asks for a job at some time. -/
structure Asker where
  worker : WorkerId
  now : Millis
deriving DecidableEq, Repr

/-- The job leased to an asker, if it has come to one. -/
def Job.leasedTo (j : Job) : Option Asker → Job
  | none => j
  | some a => { j with status := .inProgress ⟨a.worker, a.now⟩, attempts := j.attempts + 1 }

namespace Document

/-- One claim after another, all for the same types. -/
def claimAll (d : Document) (types : List String) :
    List Asker → Document × List (Option ClaimedJob)
  | [] => (d, [])
  | a :: askers =>
    let (d, first) := d.claim a.worker a.now types
    let (d, rest) := d.claimAll types askers
    (d, first :: rest)

/-- The jobs that wait and are of the right type. -/
def eligible (d : Document) (types : List String) : List Job := d.jobs.filter (·.isEligible types)

/-- Who gets the job at this place: the asker with as many others before as there are eligible jobs
before the job. -/
def asker? (d : Document) (types : List String) (askers : List Asker) (place : Nat) :
    Option Asker :=
  if d.jobs[place]?.any (·.isEligible types) then
    askers[(d.jobs.take place).countP (·.isEligible types)]?
  else none

/-- Every job leased to the asker whom it has come to; all else is as it was. -/
def leased (d : Document) (types : List String) (askers : List Asker) : Document :=
  { d with jobs := d.jobs.mapIdx fun place j => j.leasedTo (d.asker? types askers place) }

/-- What a row of claims comes to. -/
structure HandsOut (d : Document) (types : List String) (askers : List Asker) : Prop where
  /-- The eligible jobs in their order, then nothing. -/
  results : (d.claimAll types askers).2 =
    ((d.eligible types).take askers.length).map (fun j => some j.toClaimed) ++
      List.replicate (askers.length - (d.eligible types).length) none
  document : (d.claimAll types askers).1 = d.leased types askers
  /-- As long as attempts can be counted they are one more. -/
  counted : ∀ (j : Job) (a : Asker), j.attempts.toNat + 1 < UInt32.size →
    (j.leasedTo (some a)).attempts.toNat = j.attempts.toNat + 1

variable {d : Document} {types : List String} {askers : List Asker} {a : Asker} {j : Job}
  {jobs : List Job}

/-! ## One job after another -/

/-- A document with another job in front. -/
def cons (j : Job) (d : Document) : Document := { d with jobs := j :: d.jobs }

/-- Every document has no jobs, or has one more in front than another. -/
theorem cons_induction {P : Document → Prop} (hnil : ∀ d, d.jobs = [] → P d)
    (hcons : ∀ j d, P d → P (cons j d)) (d : Document) : P d := by
  obtain ⟨broker, heartbeat, jobs, total⟩ := d
  induction jobs with
  | nil => exact hnil _ rfl
  | cons j jobs ih => exact hcons j ⟨broker, heartbeat, jobs, total⟩ ih

theorem claim_cons_of_eligible (h : j.isEligible types) :
    (cons j d).claim a.worker a.now types = (cons (j.leasedTo (some a)) d, some j.toClaimed) := by
  simp only [claim, cons, claimFirst, if_pos h]
  rfl

theorem claim_cons_of_not_eligible (h : ¬ j.isEligible types) :
    (cons j d).claim a.worker a.now types =
      (cons j (d.claim a.worker a.now types).1, (d.claim a.worker a.now types).2) := by
  simp only [claim, cons, claimFirst, if_neg h]

/-- Nobody is given a job that is not eligible. -/
theorem claimAll_cons_of_not_eligible (h : ¬ j.isEligible types) (d : Document)
    (askers : List Asker) : (cons j d).claimAll types askers =
      (cons j (d.claimAll types askers).1, (d.claimAll types askers).2) := by
  induction askers generalizing d with
  | nil => rfl
  | cons a askers ih => simp only [claimAll, claim_cons_of_not_eligible h, ih]

theorem not_isEligible_leasedTo (j : Job) (a : Asker) (types : List String) :
    ¬ (j.leasedTo (some a)).isEligible types := by
  simp [Job.leasedTo, Job.isEligible, Job.isUnclaimed, Job.lease?]

/-- The first asker gets the first job, and the others the rest. -/
theorem claimAll_cons_of_eligible (h : j.isEligible types) (d : Document) (a : Asker)
    (askers : List Asker) : (cons j d).claimAll types (a :: askers) =
      (cons (j.leasedTo (some a)) (d.claimAll types askers).1,
        some j.toClaimed :: (d.claimAll types askers).2) := by
  simp only [claimAll, claim_cons_of_eligible h,
    claimAll_cons_of_not_eligible (not_isEligible_leasedTo j a types)]

theorem claimAll_of_jobs_eq_nil (h : d.jobs = []) (askers : List Asker) :
    d.claimAll types askers = (d, List.replicate askers.length none) := by
  have hclaim (a : Asker) : d.claim a.worker a.now types = (d, none) := by
    obtain ⟨broker, heartbeat, jobs, total⟩ := d
    cases h
    rfl
  induction askers with
  | nil => rfl
  | cons a askers ih =>
    simp only [claimAll, hclaim, ih]
    rfl

/-! ## Who gets which job -/

theorem eligible_cons_of_eligible (h : j.isEligible types) :
    (cons j d).eligible types = j :: d.eligible types := List.filter_cons_of_pos h

theorem eligible_cons_of_not_eligible (h : ¬ j.isEligible types) :
    (cons j d).eligible types = d.eligible types := List.filter_cons_of_neg h

theorem asker?_nil (place : Nat) : d.asker? types [] place = none := by
  unfold asker?
  split <;> rfl

theorem asker?_zero_of_eligible (h : j.isEligible types) :
    (cons j d).asker? types (a :: askers) 0 = some a := by
  simp [asker?, cons, h]

theorem asker?_zero_of_not_eligible (h : ¬ j.isEligible types) :
    (cons j d).asker? types askers 0 = none := by
  simp [asker?, cons, h]

theorem asker?_succ_of_eligible (h : j.isEligible types) (place : Nat) :
    (cons j d).asker? types (a :: askers) (place + 1) = d.asker? types askers place := by
  simp [asker?, cons, h]

theorem asker?_succ_of_not_eligible (h : ¬ j.isEligible types) (place : Nat) :
    (cons j d).asker? types askers (place + 1) = d.asker? types askers place := by
  simp [asker?, cons, h]

theorem leased_nil (d : Document) (types : List String) : d.leased types [] = d := by
  have hsame : d.jobs.mapIdx (fun place j => j.leasedTo (d.asker? types [] place)) = d.jobs := by
    simp only [asker?_nil, Job.leasedTo, List.mapIdx_eq_iff, Option.map_id', implies_true]
  rw [leased, hsame]

theorem leased_cons_of_eligible (h : j.isEligible types) (d : Document) (a : Asker)
    (askers : List Asker) : (cons j d).leased types (a :: askers) =
      cons (j.leasedTo (some a)) (d.leased types askers) := by
  have hjobs : (cons j d).jobs = j :: d.jobs := rfl
  simp only [leased, hjobs, List.mapIdx_cons, asker?_zero_of_eligible h, asker?_succ_of_eligible h]
  rfl

theorem leased_cons_of_not_eligible (h : ¬ j.isEligible types) (d : Document)
    (askers : List Asker) : (cons j d).leased types askers = cons j (d.leased types askers) := by
  have hjobs : (cons j d).jobs = j :: d.jobs := rfl
  simp only [leased, hjobs, List.mapIdx_cons, asker?_zero_of_not_eligible h,
    asker?_succ_of_not_eligible h]
  rfl

/-! ## A row of claims -/

theorem claimAll_document (d : Document) (types : List String) (askers : List Asker) :
    (d.claimAll types askers).1 = d.leased types askers := by
  induction d using cons_induction generalizing askers with
  | hnil d h =>
    rw [claimAll_of_jobs_eq_nil h, leased, h, List.mapIdx_nil, ← h]
  | hcons j d ih =>
    by_cases h : j.isEligible types
    · cases askers with
      | nil => exact (leased_nil _ types).symm
      | cons a askers =>
        rw [claimAll_cons_of_eligible h, leased_cons_of_eligible h, ih]
    · rw [claimAll_cons_of_not_eligible h, leased_cons_of_not_eligible h, ih]

theorem claimAll_results (d : Document) (types : List String) (askers : List Asker) :
    (d.claimAll types askers).2 =
      ((d.eligible types).take askers.length).map (fun j => some j.toClaimed) ++
        List.replicate (askers.length - (d.eligible types).length) none := by
  induction d using cons_induction generalizing askers with
  | hnil d h =>
    have hnone : d.eligible types = [] := by rw [eligible, h, List.filter_nil]
    rw [claimAll_of_jobs_eq_nil h, hnone, List.take_nil, List.map_nil, List.nil_append]
    rfl
  | hcons j d ih =>
    by_cases h : j.isEligible types
    · rw [eligible_cons_of_eligible h]
      cases askers with
      | nil => simp [claimAll]
      | cons a askers =>
        rw [claimAll_cons_of_eligible h, ih]
        simp only [List.length_cons, List.take_succ_cons, List.map_cons, List.cons_append,
          Nat.add_sub_add_right]
    · rw [claimAll_cons_of_not_eligible h, eligible_cons_of_not_eligible h, ih]

/-- **Claims drain the queue in order, and each job once**, whoever asks and when, and whatever ids
the jobs have. -/
theorem handsOut (d : Document) (types : List String) (askers : List Asker) :
    d.HandsOut types askers where
  results := claimAll_results d types askers
  document := claimAll_document d types askers
  counted j a h := by
    rw [Job.leasedTo, UInt32.toNat_add, UInt32.toNat_one]
    exact Nat.mod_eq_of_lt h

end Document

end LeaseQueue
