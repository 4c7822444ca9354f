import LeaseQueue.Queue.Job

/-!
# The queue document

The whole queue is one document: the broker in charge and when it was last heard of, the jobs in the
order in which they came, and how many were completed.  Every change is a function on documents, and
none of them can fail: an unknown job, a foreign lease or an empty queue changes nothing.

A pass first sweeps stale leases and then applies its mutations one after another, all at one reading
of the clock.
-/

namespace LeaseQueue

structure Document where
  broker : Option String
  brokerHeartbeat : Millis
  jobs : List Job
  completedTotal : UInt64
deriving DecidableEq, Repr

/-- A summary of a document. -/
structure QueueStats where
  total : Nat
  unclaimed : Nat
  inProgress : Nat
  completedTotal : UInt64
  broker : Option String
deriving DecidableEq, Repr

/-- A change asked for.  The set is closed. -/
inductive Mutation where
  | enqueue (jobs : List JobSpec)
  /-- No types mean any type. -/
  | claim (worker : WorkerId) (types : List String)
  | heartbeat (job : JobId) (worker : WorkerId)
  | complete (job : JobId) (worker : WorkerId)
  | registerBroker (address : String) (timestamp : Millis)
  /-- Counts only while the broker is the one in charge. -/
  | renewBroker (address : String) (timestamp : Millis)
deriving DecidableEq, Repr

/-- What a mutation came to. -/
inductive MutationResult where
  | enqueued (ids : List JobId)
  | claimed (job : Option ClaimedJob)
  /-- Whether the broker was in charge. -/
  | renewed (inCharge : Bool)
  | applied
deriving DecidableEq, Repr

namespace MutationResult

def enqueued? : MutationResult → Option (List JobId)
  | .enqueued ids => some ids
  | _ => none

def claimed? : MutationResult → Option ClaimedJob
  | .claimed job => job
  | _ => none

def isRenewed : MutationResult → Bool
  | .renewed inCharge => inCharge
  | _ => false

end MutationResult

/-- An endless row of job ids, of which the first `used` are spent. -/
structure IdSupply where
  id : Nat → JobId
  used : Nat

namespace IdSupply

/-- The next `n` ids. -/
def take (s : IdSupply) (n : Nat) : List JobId := (List.range n).map fun i => s.id (s.used + i)

/-- The supply without the next `n` ids. -/
def drop (s : IdSupply) (n : Nat) : IdSupply := { s with used := s.used + n }

end IdSupply

namespace Document

def empty : Document := ⟨none, 0, [], 0⟩

def job? (d : Document) (id : JobId) : Option Job := d.jobs.find? (·.id == id)

def stats (d : Document) : QueueStats where
  total := d.jobs.length
  unclaimed := d.jobs.countP (·.isUnclaimed)
  inProgress := d.jobs.countP (!·.isUnclaimed)
  completedTotal := d.completedTotal
  broker := d.broker

/-! ## Jobs -/

/-- Appends a job for each spec, under the next ids. -/
def enqueue (d : Document) (specs : List JobSpec) (ids : List JobId) (now : Millis) : Document :=
  { d with jobs := d.jobs ++ List.zipWith (fun spec id => Job.ofSpec spec id now) specs ids }

/-- Leases the first eligible job. -/
def claimFirst (worker : WorkerId) (now : Millis) (types : List String) :
    List Job → List Job × Option ClaimedJob
  | [] => ([], none)
  | j :: jobs =>
    if j.isEligible types then (j.claimedBy worker now :: jobs, some j.toClaimed)
    else
      let (jobs, claimed) := claimFirst worker now types jobs
      (j :: jobs, claimed)

def claim (d : Document) (worker : WorkerId) (now : Millis) (types : List String) :
    Document × Option ClaimedJob :=
  let (jobs, claimed) := claimFirst worker now types d.jobs
  ({ d with jobs }, claimed)

/-- Renews the lease of the first job with this id, if the worker holds it. -/
def refreshFirst (id : JobId) (worker : WorkerId) (now : Millis) : List Job → List Job
  | [] => []
  | j :: jobs =>
    if j.id = id then j.refreshedBy worker now :: jobs else j :: refreshFirst id worker now jobs

def heartbeat (d : Document) (id : JobId) (worker : WorkerId) (now : Millis) : Document :=
  { d with jobs := refreshFirst id worker now d.jobs }

/-- Removes the first job with this id that the worker holds, and counts it. -/
def complete (d : Document) (id : JobId) (worker : WorkerId) : Document :=
  let done (j : Job) : Bool := j.id == id && j.isHeldBy worker
  if d.jobs.any done then
    { d with jobs := d.jobs.eraseP done, completedTotal := d.completedTotal + 1 }
  else d

/-- Takes back the leases whose holders have been silent for more than `timeout`. -/
def sweep (d : Document) (now timeout : Millis) : Document :=
  { d with jobs := d.jobs.filterMap (Job.swept now timeout) }

/-! ## Brokers -/

/-- Puts a broker in charge. -/
def registerBroker (d : Document) (address : String) (now : Millis) : Document :=
  { d with broker := some address, brokerHeartbeat := now }

/-- A document that knows nothing but its broker. -/
def withBroker (address : String) (now : Millis) : Document := empty.registerBroker address now

/-- Hears of the broker, if it is in charge. -/
def renewBroker (d : Document) (address : String) (now : Millis) : Document × Bool :=
  if d.broker = some address then ({ d with brokerHeartbeat := now }, true) else (d, false)

/-! ## Mutations and passes -/

/-- A document after mutations, their results, and the ids that are left. -/
structure Outcome (ρ : Type) where
  document : Document
  result : ρ
  ids : IdSupply

def apply (d : Document) (m : Mutation) (now : Millis) (ids : IdSupply) :
    Outcome MutationResult :=
  match m with
  | .enqueue specs =>
    let drawn := ids.take specs.length
    ⟨d.enqueue specs drawn now, .enqueued drawn, ids.drop specs.length⟩
  | .claim worker types =>
    let (d, claimed) := d.claim worker now types
    ⟨d, .claimed claimed, ids⟩
  | .heartbeat job worker => ⟨d.heartbeat job worker now, .applied, ids⟩
  | .complete job worker => ⟨d.complete job worker, .applied, ids⟩
  | .registerBroker address timestamp => ⟨d.registerBroker address timestamp, .applied, ids⟩
  | .renewBroker address timestamp =>
    let (d, inCharge) := d.renewBroker address timestamp
    ⟨d, .renewed inCharge, ids⟩

/-- Applies mutations one after another. -/
def applyAll (d : Document) (ms : List Mutation) (now : Millis) (ids : IdSupply) :
    Outcome (List MutationResult) :=
  match ms with
  | [] => ⟨d, [], ids⟩
  | m :: ms =>
    let one := d.apply m now ids
    let more := applyAll one.document ms now one.ids
    ⟨more.document, one.result :: more.result, more.ids⟩

/-- What one write of an engine makes of a document. -/
def pass (d : Document) (ms : List Mutation) (now timeout : Millis) (ids : IdSupply) :
    Outcome (List MutationResult) :=
  (d.sweep now timeout).applyAll ms now ids

end Document

end LeaseQueue
