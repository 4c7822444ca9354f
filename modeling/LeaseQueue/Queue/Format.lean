import LeaseQueue.Json.Format
import LeaseQueue.Json.Printer
import LeaseQueue.Queue.Document

/-!
# Documents, jobs and mutations as JSON

In a document a job is one flat object: worker and heartbeat of its lease stand beside its other
fields, and are left out of an unclaimed job.  A job that claims to be in progress must have both.
Fields with a default are left out or written out as the table of each record says; what is written
always says every field that has no default.
-/

namespace LeaseQueue

/-- A member that is left out if there is nothing to say. -/
def Json.optional {α : Type} (key : String) (toJson : α → Json) : Option α → List (String × Json)
  | none => []
  | some a => [(key, toJson a)]

namespace Json

def ofInt64 (i : Int64) : Json := .num (.int i.toInt)
def ofUInt32 (n : UInt32) : Json := .num (.int n.toNat)
def ofUInt64 (n : UInt64) : Json := .num (.int n.toNat)
def ofNat (n : Nat) : Json := .num (.int n)

def ofOption {α : Type} (toJson : α → Json) : Option α → Json
  | none => .null
  | some a => toJson a

end Json

/-! ## Jobs -/

/-- The two kinds of status as they are written. -/
inductive Job.StatusName where
  | unclaimed
  | inProgress
deriving DecidableEq, Repr

namespace Job

def StatusName.text : StatusName → String
  | .unclaimed => "unclaimed"
  | .inProgress => "in_progress"

def Status.name : Status → StatusName
  | .unclaimed => .unclaimed
  | .inProgress _ => .inProgress

def StatusName.format : Format StatusName :=
  .variant [(unclaimed.text, unclaimed), (inProgress.text, inProgress)]

/-- The fields of a job while they are collected. -/
structure Draft where
  id : Option JobId
  status : Option StatusName
  payload : Option Json
  jobType : Option (Option String)
  worker : Option (Option WorkerId)
  heartbeat : Option (Option Millis)
  createdAt : Option Millis
  attempts : Option UInt32
  maxAttempts : Option (Option UInt32)

/-- The lease that a job's fields make up. -/
def statusOf (id : JobId) (name : StatusName) (worker : Option WorkerId)
    (heartbeat : Option Millis) : Except Mismatch Status :=
  match name, worker, heartbeat with
  | .unclaimed, _, _ => .ok .unclaimed
  | .inProgress, some worker, some heartbeat => .ok (.inProgress ⟨worker, heartbeat⟩)
  | .inProgress, _, _ => .error (.leaseIncomplete id)

def Draft.finish (d : Draft) : Except Mismatch Job := do
  let id ← require "id" d.id
  let name ← require "status" d.status
  let createdAt ← require "createdAt" d.createdAt
  let status ← statusOf id name (d.worker.getD none) (d.heartbeat.getD none)
  return {
    id, status, createdAt
    payload := d.payload.getD .null
    jobType := d.jobType.getD none
    attempts := d.attempts.getD 0
    maxAttempts := d.maxAttempts.getD none }

def record : Record Draft Job where
  title := "struct JobRecord"
  blank := ⟨none, none, none, none, none, none, none, none, none⟩
  fields := [
    .of "id" .text false (·.id) fun v d => { d with id := some v },
    .of "status" StatusName.format false (·.status) fun v d => { d with status := some v },
    .of "payload" .any true (·.payload) fun v d => { d with payload := some v },
    .of "type" (.option .text) true (·.jobType) fun v d => { d with jobType := some v },
    .of "workerId" (.option .text) true (·.worker) fun v d => { d with worker := some v },
    .of "heartbeat" (.option .int64) true (·.heartbeat) fun v d => { d with heartbeat := some v },
    .of "createdAt" .int64 false (·.createdAt) fun v d => { d with createdAt := some v },
    .of "attempts" .uint32 true (·.attempts) fun v d => { d with attempts := some v },
    .of "maxAttempts" (.option .uint32) true (·.maxAttempts)
      fun v d => { d with maxAttempts := some v }]
  finish := Draft.finish

def format : Format Job := record.format

def toJson (j : Job) : Json := .obj (
  [("id", .str j.id), ("status", .str j.status.name.text), ("payload", j.payload)] ++
  Json.optional "type" .str j.jobType ++
  Json.optional "workerId" .str (j.lease?.map (·.worker)) ++
  Json.optional "heartbeat" Json.ofInt64 (j.lease?.map (·.heartbeat)) ++
  [("createdAt", Json.ofInt64 j.createdAt), ("attempts", Json.ofUInt32 j.attempts)] ++
  Json.optional "maxAttempts" Json.ofUInt32 j.maxAttempts)

end Job

namespace JobSpec

/-- The fields of a spec while they are collected. -/
structure Draft where
  payload : Option Json
  jobType : Option (Option String)
  maxAttempts : Option (Option UInt32)

def record : Record Draft JobSpec where
  title := "struct JobSpec"
  blank := ⟨none, none, none⟩
  fields := [
    .of "payload" .any true (·.payload) fun v d => { d with payload := some v },
    .of "jobType" (.option .text) true (·.jobType) fun v d => { d with jobType := some v },
    .of "maxAttempts" (.option .uint32) true (·.maxAttempts)
      fun v d => { d with maxAttempts := some v }]
  finish d := .ok ⟨d.payload.getD .null, d.jobType.getD none, d.maxAttempts.getD none⟩

def format : Format JobSpec := record.format

def toJson (s : JobSpec) : Json := .obj (
  [("payload", s.payload)] ++ Json.optional "jobType" .str s.jobType ++
  Json.optional "maxAttempts" Json.ofUInt32 s.maxAttempts)

end JobSpec

namespace ClaimedJob

/-- The fields of a claimed job while they are collected. -/
structure Draft where
  id : Option JobId
  payload : Option Json
  jobType : Option (Option String)

def Draft.finish (d : Draft) : Except Mismatch ClaimedJob := do
  let id ← require "id" d.id
  let payload ← require "payload" d.payload
  return ⟨id, payload, d.jobType.getD none⟩

def record : Record Draft ClaimedJob where
  title := "struct ClaimedJob"
  blank := ⟨none, none, none⟩
  fields := [
    .of "id" .text false (·.id) fun v d => { d with id := some v },
    .of "payload" .any false (·.payload) fun v d => { d with payload := some v },
    .of "type" (.option .text) true (·.jobType) fun v d => { d with jobType := some v }]
  finish := Draft.finish

def format : Format ClaimedJob := record.format

def toJson (j : ClaimedJob) : Json := .obj (
  [("id", .str j.id), ("payload", j.payload)] ++ Json.optional "type" .str j.jobType)

end ClaimedJob

/-! ## Documents -/

namespace Document

/-- The fields of a document while they are collected. -/
structure Draft where
  broker : Option (Option String)
  brokerHeartbeat : Option Millis
  jobs : Option (List Job)
  completedTotal : Option UInt64

def record : Record Draft Document where
  title := "struct QueueState"
  blank := ⟨none, none, none, none⟩
  fields := [
    .of "broker" (.option .text) true (·.broker) fun v d => { d with broker := some v },
    .of "brokerHeartbeat" .int64 true (·.brokerHeartbeat)
      fun v d => { d with brokerHeartbeat := some v },
    .of "jobs" (.list Job.format) true (·.jobs) fun v d => { d with jobs := some v },
    .of "completedTotal" .uint64 true (·.completedTotal)
      fun v d => { d with completedTotal := some v }]
  finish d := .ok ⟨d.broker.getD none, d.brokerHeartbeat.getD 0, d.jobs.getD [],
    d.completedTotal.getD 0⟩

def format : Format Document := record.format

def toJson (d : Document) : Json := .obj [
  ("broker", Json.ofOption .str d.broker),
  ("brokerHeartbeat", Json.ofInt64 d.brokerHeartbeat),
  ("jobs", .arr (d.jobs.map Job.toJson)),
  ("completedTotal", Json.ofUInt64 d.completedTotal)]

/-- The document as it is stored. -/
def encode (d : Document) : Bytes := d.toJson.render

/-- The document that is stored in these octets. -/
def decode (b : Bytes) : Except ReadError Document := format.parse b

end Document

namespace QueueStats

/-- The fields of a summary while they are collected. -/
structure Draft where
  total : Option Nat
  unclaimed : Option Nat
  inProgress : Option Nat
  completedTotal : Option UInt64
  broker : Option (Option String)

def Draft.finish (d : Draft) : Except Mismatch QueueStats := do
  let total ← require "total" d.total
  let unclaimed ← require "unclaimed" d.unclaimed
  let inProgress ← require "inProgress" d.inProgress
  let completedTotal ← require "completedTotal" d.completedTotal
  return ⟨total, unclaimed, inProgress, completedTotal, d.broker.getD none⟩

def record : Record Draft QueueStats where
  title := "struct QueueStats"
  blank := ⟨none, none, none, none, none⟩
  fields := [
    .of "total" .size false (·.total) fun v d => { d with total := some v },
    .of "unclaimed" .size false (·.unclaimed) fun v d => { d with unclaimed := some v },
    .of "inProgress" .size false (·.inProgress) fun v d => { d with inProgress := some v },
    .of "completedTotal" .uint64 false (·.completedTotal)
      fun v d => { d with completedTotal := some v },
    .of "broker" (.option .text) false (·.broker) fun v d => { d with broker := some v }]
  finish := Draft.finish

def format : Format QueueStats := record.format

def toJson (s : QueueStats) : Json := .obj [
  ("total", Json.ofNat s.total),
  ("unclaimed", Json.ofNat s.unclaimed),
  ("inProgress", Json.ofNat s.inProgress),
  ("completedTotal", Json.ofUInt64 s.completedTotal),
  ("broker", Json.ofOption .str s.broker)]

end QueueStats

/-! ## Mutations -/

namespace Mutation

/-- The six kinds of mutation. -/
inductive Kind where
  | enqueue
  | claim
  | heartbeat
  | complete
  | registerBroker
  | renewBroker
deriving DecidableEq, Repr

def Kind.text : Kind → String
  | .enqueue => "enqueue"
  | .claim => "claim"
  | .heartbeat => "heartbeat"
  | .complete => "complete"
  | .registerBroker => "register_broker"
  | .renewBroker => "renew_broker"

def kind : Mutation → Kind
  | .enqueue _ => .enqueue
  | .claim _ _ => .claim
  | .heartbeat _ _ => .heartbeat
  | .complete _ _ => .complete
  | .registerBroker _ _ => .registerBroker
  | .renewBroker _ _ => .renewBroker

def Kind.format : Format Kind :=
  .name ([.enqueue, .claim, .heartbeat, .complete, .registerBroker, .renewBroker].map
    fun k => (k.text, k))

/-- Two fields while they are collected. -/
structure Draft (α β : Type) where
  first : Option α
  second : Option β

def enqueueRecord : Record (Option (List JobSpec)) Mutation where
  title := "struct variant Mutation::Enqueue"
  blank := none
  fields := [.of "jobs" (.list JobSpec.format) false id fun v _ => some v]
  finish d := return .enqueue (← require "jobs" d)

def claimRecord : Record (Draft WorkerId (List String)) Mutation where
  title := "struct variant Mutation::Claim"
  blank := ⟨none, none⟩
  fields := [
    .of "workerId" .text false (·.first) fun v d => { d with first := some v },
    .of "jobTypes" (.list .text) true (·.second) fun v d => { d with second := some v }]
  finish d := return .claim (← require "workerId" d.first) (d.second.getD [])

/-- A mutation that names a job and a worker. -/
def leaseRecord (title : String) (mutation : JobId → WorkerId → Mutation) :
    Record (Draft JobId WorkerId) Mutation where
  title := title
  blank := ⟨none, none⟩
  fields := [
    .of "jobId" .text false (·.first) fun v d => { d with first := some v },
    .of "workerId" .text false (·.second) fun v d => { d with second := some v }]
  finish d := return mutation (← require "jobId" d.first) (← require "workerId" d.second)

/-- A mutation that names a broker and a time. -/
def brokerRecord (title : String) (mutation : String → Millis → Mutation) :
    Record (Draft String Millis) Mutation where
  title := title
  blank := ⟨none, none⟩
  fields := [
    .of "brokerAddress" .text false (·.first) fun v d => { d with first := some v },
    .of "timestamp" .int64 false (·.second) fun v d => { d with second := some v }]
  finish d :=
    return mutation (← require "brokerAddress" d.first) (← require "timestamp" d.second)

def ofContent : Kind → Json → Except Mismatch Mutation
  | .enqueue => enqueueRecord.ofJson
  | .claim => claimRecord.ofJson
  | .heartbeat => (leaseRecord "struct variant Mutation::Heartbeat" .heartbeat).ofJson
  | .complete => (leaseRecord "struct variant Mutation::Complete" .complete).ofJson
  | .registerBroker =>
    (brokerRecord "struct variant Mutation::RegisterBroker" .registerBroker).ofJson
  | .renewBroker => (brokerRecord "struct variant Mutation::RenewBroker" .renewBroker).ofJson

def tagged : Tagged Kind Mutation where
  title := "internally tagged enum Mutation"
  key := "type"
  tag := Kind.format
  variant := ofContent

def format : Format Mutation := tagged.format

/-- The members after the one that names the kind. -/
def members : Mutation → List (String × Json)
  | .enqueue jobs => [("jobs", .arr (jobs.map JobSpec.toJson))]
  | .claim worker types => [("workerId", .str worker), ("jobTypes", .arr (types.map .str))]
  | .heartbeat job worker => [("jobId", .str job), ("workerId", .str worker)]
  | .complete job worker => [("jobId", .str job), ("workerId", .str worker)]
  | .registerBroker address timestamp =>
    [("brokerAddress", .str address), ("timestamp", Json.ofInt64 timestamp)]
  | .renewBroker address timestamp =>
    [("brokerAddress", .str address), ("timestamp", Json.ofInt64 timestamp)]

def toJson (m : Mutation) : Json := .obj (("type", .str m.kind.text) :: m.members)

end Mutation

end LeaseQueue
