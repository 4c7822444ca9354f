import LeaseQueue.Engine.Basic

/-!
# Starting an engine

A start makes sure that there is a document: it creates an empty one, or reads the one that is
there.  Only then is the engine running.  If the engine was stopped in the meantime, the start came
too late and reports that.
-/

namespace LeaseQueue.Engine

/-- Where a start of some epoch waits for the store. -/
inductive Startup : Store.Access → Type where
  | creating (epoch : Nat) : Startup .put
  | reading (epoch : Nat) : Startup .read
deriving DecidableEq, Repr

inductive StartResult where
  /-- The engine was not stopped. -/
  | already
  /-- A loop is to run for this epoch, and to be woken at once if `kick`. -/
  | running (epoch : Nat) (kick : Bool)
  | failed (cause : Error)
deriving DecidableEq, Repr

abbrev Startup.Progress := Store.Progress Startup StartResult

def Startup.call (o : Options) {a : Store.Access} : Startup a → Store.Call a
  | .creating _ => .create o.stateKey Document.empty.encode
  | .reading _ => .read o.stateKey

/-- Begins an epoch. -/
def start (e : Engine) : Engine × Startup.Progress :=
  if e.phase = .stopped then
    ({ e with phase := .starting, epoch := e.epoch + 1 }, .waiting (.creating (e.epoch + 1)))
  else (e, .done .already)

/-- A start that failed makes the engine stopped again, if it is still in charge. -/
def failStart (e : Engine) (epoch : Nat) (cause : Error) : Engine × Startup.Progress :=
  (if e.epoch = epoch then { e with phase := .stopped } else e, .done (.failed cause))

/-- The document is there and known. -/
def finishStart (e : Engine) (epoch : Nat) : Engine × Startup.Progress :=
  if e.epoch = epoch then
    ({ e with phase := .running }, .done (.running epoch (!e.buffer.isEmpty)))
  else (e, .done (.failed .stopped))

/-- The document that an answer brings. -/
def received (key : String) : Store.Answer .read → Except Error Cached
  | .error cause => .error (.storage cause)
  | .ok none => .error (.stateMissing key)
  | .ok (some object) =>
    match Document.decode object.data with
    | .error cause => .error (.codec cause)
    | .ok document => .ok ⟨document, object.token⟩

/-- Goes on with the store's answer. -/
def resumeStart (e : Engine) {a : Store.Access} :
    Startup a → Store.Answer a → Engine × Startup.Progress
  | .creating epoch, .ok token =>
    finishStart { e with cache := some ⟨Document.empty, token⟩ } epoch
  | .creating epoch, .error (.conflict _) => (e, .waiting (.reading epoch))
  | .creating epoch, .error cause => failStart e epoch (.storage cause)
  | .reading epoch, answer =>
    match received e.options.stateKey answer with
    | .ok cached => finishStart { e with cache := some cached } epoch
    | .error cause => failStart e epoch cause

end LeaseQueue.Engine
