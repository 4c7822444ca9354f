import LeaseQueue.Json.Basic

/-!
# Jobs

A job waits unclaimed or is leased to a worker.  Each claim counts as an attempt; when a lease goes
stale the job returns to the queue as long as it has attempts left.

Times are milliseconds since 1970 in 64 bits, and so are their differences, which wrap around where
they do not fit.
-/

namespace LeaseQueue

abbrev JobId := String
abbrev WorkerId := String

/-- Milliseconds since the start of 1970, UTC; also a span of them. -/
abbrev Millis := Int64

namespace Millis

/-- More than `timeout` has passed from `since` to `now`. -/
def isPast (now since timeout : Millis) : Bool := timeout < now - since

/-- More than `timeout` has passed, also where the difference of the times does not fit. -/
def IsTrulyPast (now since timeout : Millis) : Prop := timeout.toInt < now.toInt - since.toInt

instance (now since timeout : Millis) : Decidable (now.IsTrulyPast since timeout) :=
  inferInstanceAs (Decidable (_ < _))

/-- The difference of the times fits. -/
def IsWithin (now since : Millis) : Prop :=
  -0x8000000000000000 ≤ now.toInt - since.toInt ∧ now.toInt - since.toInt < 0x8000000000000000

instance (now since : Millis) : Decidable (now.IsWithin since) :=
  inferInstanceAs (Decidable (_ ∧ _))

theorem isWithin_self (now : Millis) : now.IsWithin now := by
  rw [IsWithin, Int.sub_self]
  decide

variable {now since timeout : Millis}

theorem isPast_iff (h : now.IsWithin since) :
    now.isPast since timeout ↔ now.IsTrulyPast since timeout := by
  obtain ⟨hlow, hhigh⟩ := h
  rw [IsTrulyPast, isPast, decide_eq_true_eq, Int64.lt_iff_toInt_lt, Int64.toInt_sub,
    Int.bmod_eq_of_le (by omega) (by omega)]

/-- After 1970 a difference that wraps comes out too small: nothing seems past that is not. -/
theorem isTrulyPast_of_isPast (hnow : 0 ≤ now) (h : now.isPast since timeout) :
    now.IsTrulyPast since timeout := by
  have hnow : 0 ≤ now.toInt := Int64.le_iff_toInt_le.1 hnow
  have hsince := since.toInt_lt
  by_cases hwithin : now.IsWithin since
  · exact (isPast_iff hwithin).1 h
  · have htimeout := timeout.toInt_lt
    unfold IsWithin at hwithin
    unfold IsTrulyPast
    omega

/-- What is past stays so: later on, and of earlier times. -/
theorem IsTrulyPast.mono (h : now.IsTrulyPast since timeout) {now' since' : Millis}
    (hnow : now.toInt ≤ now'.toInt) (hsince : since'.toInt ≤ since.toInt) :
    now'.IsTrulyPast since' timeout := by
  unfold IsTrulyPast at h ⊢
  omega

end Millis

/-- A worker's hold on a job, and when the worker was last heard of. -/
structure Lease where
  worker : WorkerId
  heartbeat : Millis
deriving DecidableEq, Repr

inductive Job.Status where
  | unclaimed
  | inProgress (lease : Lease)
deriving DecidableEq, Repr

structure Job where
  id : JobId
  status : Job.Status
  /-- What the job is about; the queue does not look into it. -/
  payload : Json
  jobType : Option String
  createdAt : Millis
  /-- How often the job was claimed. -/
  attempts : UInt32
  maxAttempts : Option UInt32
deriving DecidableEq, Repr

/-- What is asked to be done. -/
structure JobSpec where
  payload : Json
  jobType : Option String
  maxAttempts : Option UInt32
deriving DecidableEq, Repr

/-- What a worker is given. -/
structure ClaimedJob where
  id : JobId
  payload : Json
  jobType : Option String
deriving DecidableEq, Repr

/-- Allows so many attempts a job that sets no bound itself. -/
def defaultMaxAttempts : UInt32 := 3

namespace Job

def ofSpec (spec : JobSpec) (id : JobId) (now : Millis) : Job where
  id := id
  status := .unclaimed
  payload := spec.payload
  jobType := spec.jobType
  createdAt := now
  attempts := 0
  maxAttempts := spec.maxAttempts

def lease? (j : Job) : Option Lease :=
  match j.status with
  | .unclaimed => none
  | .inProgress lease => some lease

def isUnclaimed (j : Job) : Bool := j.lease?.isNone

/-- The worker has the job on lease. -/
def isHeldBy (j : Job) (worker : WorkerId) : Bool := j.lease?.any (·.worker == worker)

/-- The attempts that the job may have. -/
def attemptLimit (j : Job) : UInt32 := j.maxAttempts.getD defaultMaxAttempts

/-- No types admit every job; otherwise the job's own must be among them. -/
def matchesTypes (j : Job) (types : List String) : Bool :=
  types.isEmpty || j.jobType.any (types.contains ·)

def isEligible (j : Job) (types : List String) : Bool := j.isUnclaimed && j.matchesTypes types

/-- The job leased to a worker, one attempt further. -/
def claimedBy (j : Job) (worker : WorkerId) (now : Millis) : Job :=
  { j with status := .inProgress ⟨worker, now⟩, attempts := j.attempts + 1 }

def toClaimed (j : Job) : ClaimedJob := ⟨j.id, j.payload, j.jobType⟩

/-- The job with its lease renewed, if the worker holds it. -/
def refreshedBy (j : Job) (worker : WorkerId) (now : Millis) : Job :=
  if j.isHeldBy worker then { j with status := .inProgress ⟨worker, now⟩ } else j

/-- The job is leased and its holder has been silent for more than `timeout`. -/
def isStale (j : Job) (now timeout : Millis) : Bool :=
  j.lease?.any fun lease => now.isPast lease.heartbeat timeout

/-- A stale job is given back, or dropped once its attempts are used up. -/
def swept (now timeout : Millis) (j : Job) : Option Job :=
  if j.isStale now timeout then
    if j.attemptLimit ≤ j.attempts then none else some { j with status := .unclaimed }
  else some j

end Job

end LeaseQueue
