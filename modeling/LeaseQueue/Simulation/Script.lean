import LeaseQueue.Broker
import LeaseQueue.Simulation.Faults
import LeaseQueue.Store.Memory
import LeaseQueue.Store.Throttle

/-!
# Scripts

A script is a list of steps on one store and the engines, elections and brokers over it, which are
known by names.  Branches of a script run side by side.

Jobs are referred to by id, or by `$1`, `$2`, … in the order in which their generated ids have
appeared in outcomes so far.
-/

namespace LeaseQueue.Simulation

inductive Step where
  /-- Runs scripts side by side until all are done. -/
  | concurrently (branches : List (List Step))
  | sleep (ms : Nat)
  | setClock (now : Millis)
  | advanceClock (delta : Millis)
  | read (key : String)
  | write (key : String) (expected : Store.Token) (data : Bytes)
  | create (key : String) (data : Bytes)
  /-- Looks at the octets of an object, past all layers. -/
  | peek (key : String)
  /-- Looks at a stored document, past all layers. -/
  | stored (key : String)
  | counts
  | throttleStats
  | setLatency (ms : Nat)
  | setFailure (failure : Option Store.Error)
  | setMemory (options : Store.Memory.Options)
  | setFaults (faults : Faults)
  /-- Another client applies mutations, below the faults. -/
  | foreign (key : String) (ms : List Mutation)
  | newEngine (name : String) (options : Engine.Options)
  | startEngine (name : String)
  | stopEngine (name : String)
  | phase (name : String)
  | cached (name : String)
  | stats (name : String)
  /-- Keeps the submission under a label. -/
  | submit (name label : String) (m : Mutation)
  | await (label : String)
  /-- Submits all at once, then awaits each. -/
  | batch (name : String) (ms : List Mutation)
  | enqueue (name : String) (specs : List JobSpec)
  | claim (name worker : String) (types : List String)
  | heartbeat (name job worker : String)
  | complete (name job worker : String)
  /-- The clock's time stands in for a time that is not given. -/
  | registerBroker (name address : String) (now : Option Millis)
  | renewBroker (name address : String) (now : Option Millis)
  | newElection (name : String) (election : Election)
  | elect (name : String) (now : Option Millis)
  | check (name : String)
  | startBroker (name : String) (options : Broker.Options)
  | beat (name : String)
  | isLeader (name : String)
  | stopBroker (name : String)
  /-- Waits until the broker has stopped, at most so long. -/
  | awaitStopped (name : String) (ms : Nat)
  | dropBroker (name : String)

/-- What a step came to. -/
inductive Outcome where
  | branches (records : List (List (Outcome × Nat)))
  | done
  | ok
  | flag (b : Bool)
  | clock (now : Millis)
  | bytes (data : Option Bytes)
  | object (o : Option Store.Object)
  | token (t : Store.Token)
  | document (d : Option Document)
  /-- Octets that are no document. -/
  | raw (data : Bytes)
  | counts (reads writes creates : Nat)
  | throttle (s : Option Store.ThrottleStats)
  | engineOptions (o : Engine.Options)
  | phase (p : Engine.Phase)
  | stats (s : Option QueueStats)
  | results (rs : List MutationResult)
  | verdict (v : Engine.Verdict)
  | verdicts (vs : List Engine.Verdict)
  | noHandle
  | ids (ids : List JobId)
  | claimed (job : Option ClaimedJob)
  | address (a : String)
  | election (r : Election.Result)
  | started (address : String)
  | storeError (e : Store.Error)
  | engineError (e : Engine.Error)
  | electionError (e : Election.Error)
  | brokerError (e : Broker.Error)
  /-- Nothing has this name. -/
  | unknown (name : String)

/-- An outcome and the time of it. -/
abbrev Record := Outcome × Nat

end LeaseQueue.Simulation

namespace LeaseQueue

/-! ## References to jobs -/

/-- The ids of a result, in the order in which they are told. -/
def MutationResult.jobIds : MutationResult → List JobId
  | .enqueued ids => ids
  | .claimed job => (job.map (·.id)).toList
  | .renewed _ | .applied => []

def Document.jobIds (d : Document) : List JobId := d.jobs.map (·.id)

/-- Puts another id in the place of the one that a mutation names. -/
def Mutation.mapJob (f : JobId → JobId) : Mutation → Mutation
  | .heartbeat job worker => .heartbeat (f job) worker
  | .complete job worker => .complete (f job) worker
  | m => m

/-- The ids of an outcome, in the order in which they are told.  Those of branches have been told
before. -/
def Simulation.Outcome.jobIds : Simulation.Outcome → List JobId
  | .document d => (d.map Document.jobIds).getD []
  | .results rs => rs.flatMap MutationResult.jobIds
  | .verdict (.ok r) => r.jobIds
  | .verdicts vs => vs.flatMap fun
    | .ok r => r.jobIds
    | .error _ => []
  | .ids told => told
  | .claimed job => (job.map (·.id)).toList
  | _ => []

namespace Simulation

/-- Generated ids by the order in which they appeared. -/
structure Aliases where
  ids : List JobId

namespace Aliases

def empty : Aliases := ⟨[]⟩

/-- Adds generated ids that appear for the first time. -/
def note (a : Aliases) (isGenerated : JobId → Bool) (appearing : List JobId) : Aliases :=
  appearing.foldl
    (fun a id => if isGenerated id && !a.ids.contains id then ⟨a.ids ++ [id]⟩ else a) a

/-- The name of an id: its number if it was generated. -/
def name (a : Aliases) (id : JobId) : String :=
  match a.ids.idxOf? id with
  | some i => "$" ++ toString (i + 1)
  | none => id

/-- The id that a reference means; one that names nothing stands for itself. -/
def resolve (a : Aliases) (reference : String) : JobId :=
  ((a.ids.zipIdx 1).find? fun (_, i) => "$" ++ toString i == reference).elim reference (·.1)

end Aliases

end Simulation

end LeaseQueue
