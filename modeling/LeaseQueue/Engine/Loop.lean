import LeaseQueue.Engine.Startup

/-!
# The loop of an engine

A loop rests until the interval is over or it is woken, gives way once so that others who were woken
with it can submit too, and then takes everything that is buffered as one batch.

A pass writes a batch.  It works on the cached document, or reads it first: it sweeps stale leases,
applies the batch in order and replaces the document on condition that its token is still the same.
A conflict empties the cache, and after a wait that grows with every conflict the pass starts anew,
as often as the options allow.  Any other failure ends it.  The whole batch gets its results from the
write that succeeded, or one error.
-/

namespace LeaseQueue.Engine

/-- A batch on its way, and how many of its writes conflicted. -/
structure Pass where
  batch : List Pending
  conflicts : UInt32
deriving DecidableEq, Repr

/-- Where a pass waits for the store. -/
inductive Commit : Store.Access → Type where
  | reading (pass : Pass) : Commit .read
  /-- With the document that is to be stored over the one under `expected`, and the results of the
  batch. -/
  | writing (pass : Pass) (document : Document) (results : List MutationResult)
      (expected : Store.Token) : Commit .put

def Commit.pass {a : Store.Access} : Commit a → Pass
  | .reading pass => pass
  | .writing pass _ _ _ => pass

def Commit.call (o : Options) {a : Store.Access} : Commit a → Store.Call a
  | .reading _ => .read o.stateKey
  | .writing _ document _ expected => .write o.stateKey document.encode expected

/-- What a loop does next. -/
inductive LoopStep where
  /-- Waits for the interval or to be woken. -/
  | rest
  /-- Lets the others go first. -/
  | giveWay
  | commit {a : Store.Access} (point : Commit a)
  /-- Waits some milliseconds after a conflict. -/
  | backOff (pass : Pass) (wait : Nat)
  | leave

/-- What a step of a loop leaves behind. -/
structure LoopMove where
  engine : Engine
  next : LoopStep
  settled : List Settlement
  ids : IdSupply

/-- Rests, unless the epoch is over. -/
def enterLoop (e : Engine) (epoch : Nat) : LoopStep := if e.isCurrent epoch then .rest else .leave

/-- Goes on after a rest. -/
def wakeLoop (e : Engine) (epoch : Nat) : LoopStep :=
  if e.isCurrent epoch then .giveWay else .leave

/-- Folds a batch over a document and writes the outcome. -/
def write (e : Engine) (pass : Pass) (c : Cached) (now : Millis) (ids : IdSupply) : LoopMove :=
  let outcome := c.document.pass (pass.batch.map (·.mutation)) now e.options.heartbeatTimeout ids
  ⟨e, .commit (.writing pass outcome.document outcome.result c.token), [], outcome.ids⟩

/-- Begins a pass, or begins it anew after a conflict. -/
def attempt (e : Engine) (pass : Pass) (now : Millis) (ids : IdSupply) : LoopMove :=
  match e.cache with
  | some c => e.write pass c now ids
  | none => ⟨e, .commit (.reading pass), [], ids⟩

/-- Takes what is buffered as one batch. -/
def drain (e : Engine) (epoch : Nat) (now : Millis) (ids : IdSupply) : LoopMove :=
  match e.buffer with
  | [] => ⟨e, e.enterLoop epoch, [], ids⟩
  | batch => { e with buffer := [] }.attempt ⟨batch, 0⟩ now ids

/-- Ends a pass with one error for its batch. -/
def failPass (e : Engine) (epoch : Nat) (pass : Pass) (cause : Error) (ids : IdSupply) :
    LoopMove :=
  ⟨e, e.enterLoop epoch, settleAll (.error cause) pass.batch, ids⟩

/-- The verdicts of a batch that was written. -/
def settleResults (batch : List Pending) (results : List MutationResult) : List Settlement :=
  List.zipWith (fun p result => ⟨p.ticket, .ok result⟩) batch results

/-- Goes on with the store's answer. -/
def resumeCommit (e : Engine) (epoch : Nat) (now : Millis) (ids : IdSupply) {a : Store.Access} :
    Commit a → Store.Answer a → LoopMove
  | .reading pass, answer =>
    match received e.options.stateKey answer with
    | .ok cached => { e with cache := some cached }.write pass cached now ids
    | .error cause => e.failPass epoch pass cause ids
  | .writing pass document results _, .ok token =>
    let e := { e with cache := some ⟨document, token⟩ }
    ⟨e, e.enterLoop epoch, settleResults pass.batch results, ids⟩
  | .writing pass _ _ _, .error (.conflict _) =>
    let e := { e with cache := none }
    if e.options.maxRetries ≤ pass.conflicts then
      e.failPass epoch pass (.retriesExhausted (pass.conflicts + 1)) ids
    else
      let conflicts := pass.conflicts + 1
      ⟨e, .backOff { pass with conflicts } (e.options.conflictBackoff * conflicts.toNat), [], ids⟩
  | .writing pass _ _ _, .error cause => e.failPass epoch pass (.storage cause) ids

end LeaseQueue.Engine
