import LeaseQueue.Queue.Format
import LeaseQueue.Store.Basic
import LeaseQueue.ObjectPath

/-!
# The engine

An engine collects mutations from any number of submitters and writes them in batches.  It keeps the
document that it last saw in the store, with its token, and replaces it by one conditional write for
each batch.

An engine is stopped, starting or running.  Every start and every stop begins a new epoch; a loop
belongs to the epoch that started it, and leaves once that is over.

Each submission has a ticket, under which its verdict is given.  `submit` and `stop` are single
steps; starting and the loop wait for the store in between, and are in modules of their own.

Conflicts are counted in 32 bits, as retries are.  Spans of time are exact, however long.
-/

namespace LeaseQueue

namespace Engine

inductive Error where
  | stopped
  | storage (cause : Store.Error)
  | retriesExhausted (attempts : UInt32)
  /-- There is no document under the key. -/
  | stateMissing (key : String)
  /-- The stored document cannot be read. -/
  | codec (cause : ReadError)
deriving DecidableEq, Repr

/-- A document that cannot be read has no text of its own. -/
def Error.message? : Error → Option String
  | .stopped => some "group commit engine stopped"
  | .storage cause => some cause.message
  | .retriesExhausted attempts =>
    some ("gave up after " ++ toString attempts.toNat ++ " conflicting writes")
  | .stateMissing key => some ("failed to read queue state: " ++ key)
  | .codec _ => none

structure Options where
  stateKey : String
  /-- Milliseconds between passes when nothing is submitted. -/
  interval : Nat
  /-- A lease is stale after this time. -/
  heartbeatTimeout : Millis
  /-- The wait after the `k`-th conflict is `k` times this long, in milliseconds. -/
  conflictBackoff : Nat
  /-- How often a conflicting write is tried again. -/
  maxRetries : UInt32
deriving DecidableEq, Repr

def Options.standard : Options := ⟨defaultStateKey, 50, 30000, 50, 5⟩

inductive Phase where
  | stopped
  | starting
  | running
deriving DecidableEq, Repr

abbrev Ticket := Nat

/-- What a submission came to. -/
abbrev Verdict := Except Error MutationResult

structure Pending where
  ticket : Ticket
  mutation : Mutation
deriving DecidableEq, Repr

structure Settlement where
  ticket : Ticket
  verdict : Verdict

/-- A document with the token under which it is stored. -/
structure Cached where
  document : Document
  token : Store.Token
deriving DecidableEq, Repr

end Engine

structure Engine where
  options : Engine.Options
  phase : Engine.Phase
  /-- The number of starts and stops so far. -/
  epoch : Nat
  /-- Submissions that no pass has taken yet. -/
  buffer : List Engine.Pending
  cache : Option Engine.Cached
deriving DecidableEq, Repr

namespace Engine

def create (options : Options) : Engine := ⟨options, .stopped, 0, [], none⟩

/-- A loop of this epoch is to go on. -/
def isCurrent (e : Engine) (epoch : Nat) : Bool := e.phase = .running && e.epoch = epoch

def cachedDocument? (e : Engine) : Option Document := e.cache.map (·.document)

def stats? (e : Engine) : Option QueueStats := e.cachedDocument?.map Document.stats

/-- The same verdict for everyone. -/
def settleAll (verdict : Verdict) (batch : List Pending) : List Settlement :=
  batch.map fun p => ⟨p.ticket, verdict⟩

/-- What became of a submission. -/
inductive Admission where
  /-- A stopped engine takes nothing. -/
  | rejected
  /-- It is buffered; with `kick` the loop is to be woken. -/
  | buffered (kick : Bool)
deriving DecidableEq, Repr

/-- Buffers a mutation.  The first one wakes the loop, the others go with it. -/
def submit (e : Engine) (p : Pending) : Engine × Admission :=
  if e.phase = .stopped then (e, .rejected)
  else ({ e with buffer := e.buffer ++ [p] }, .buffered (e.phase = .running && e.buffer.isEmpty))

/-- Ends the epoch and rejects what is buffered.  `none` if there was nothing to stop. -/
def stop? (e : Engine) : Option (Engine × List Settlement) :=
  if e.phase = .stopped && e.buffer.isEmpty then none
  else some ({ e with phase := .stopped, epoch := e.epoch + 1, buffer := [] },
    settleAll (.error .stopped) e.buffer)

end Engine

end LeaseQueue
