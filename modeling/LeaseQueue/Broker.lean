import LeaseQueue.Election
import LeaseQueue.Engine.Loop

/-!
# Brokers

A broker wins the election, starts an engine and registers itself in the document, as the first
sign of life.  From then on it looks at regular intervals whether the document still names it, and
renews its heartbeat if so.  A broker that has been superseded stops.

Renewing counts only while the committed document names the broker, so that a write which is folded
anew over a challenger's document leaves the challenger in place.
-/

namespace LeaseQueue

namespace Broker

inductive Error where
  /-- Another broker is in charge. -/
  | leadershipDenied (leader : String)
  | electionConflict
  | election (cause : Election.Error)
  | engine (cause : Engine.Error)
deriving DecidableEq, Repr

def Error.message? : Error → Option String
  | .leadershipDenied leader => some ("another broker is active: " ++ leader)
  | .electionConflict => some "lost an election race, retry later"
  | .election cause => cause.message?.map ("election failed: " ++ ·)
  | .engine cause => cause.message?.map ("engine failed: " ++ ·)

structure Options where
  address : String
  /-- Milliseconds between heartbeats. -/
  heartbeatInterval : Nat
  /-- The broker is stale after this time. -/
  heartbeatTimeout : Millis
  engine : Engine.Options
deriving DecidableEq, Repr

def Options.standard (address : String) : Options :=
  ⟨address, 3000, Election.defaultTimeout, Engine.Options.standard⟩

/-- The election in which a broker stands. -/
def Options.election (o : Options) : Election :=
  ⟨o.address, o.engine.stateKey, o.heartbeatTimeout⟩

end Broker

/-- A broker that was started.  Its engine runs beside it. -/
structure Broker where
  options : Broker.Options
  /-- Neither stopped nor superseded. -/
  leader : Bool
  stopped : Bool
deriving DecidableEq, Repr

namespace Broker

/-! ## Starting -/

/-- Where a start waits for the store.  `now` is the time of the election. -/
inductive Startup : Store.Access → Type where
  | electing {a : Store.Access} (now : Millis) (attempt : Election.Attempt a) : Startup a
  | opening {a : Store.Access} (now : Millis) (point : Engine.Startup a) : Startup a

def Startup.call (o : Options) {a : Store.Access} : Startup a → Store.Call a
  | .electing _ attempt => attempt.call o.election
  | .opening _ point => point.call o.engine

/-- What a start does next. -/
inductive StartStep where
  | waiting {a : Store.Access} (point : Startup a)
  /-- The engine runs a loop for this epoch; it is given the registration to write. -/
  | register (epoch : Nat) (kick : Bool) (registration : Mutation)
  | failed (cause : Error)

/-- A start begins with an election. -/
def begin (now : Millis) : Startup .read := .electing now (.looking now)

/-- A step of the engine's start, within that of the broker. -/
def openEngine (o : Options) (now : Millis) :
    Engine × Engine.Startup.Progress → Engine × StartStep
  | (e, .waiting point) => (e, .waiting (.opening now point))
  | (e, .done (.running epoch kick)) =>
    (e, .register epoch kick (.registerBroker o.address now))
  | (e, .done .already) => (e, .failed (.engine .stopped))
  | (e, .done (.failed cause)) => (e, .failed (.engine cause))

/-- Goes on with the store's answer; the engine is new when the election is over. -/
def resumeStart (o : Options) (e : Engine) {a : Store.Access} :
    Startup a → Store.Answer a → Engine × StartStep
  | .electing now attempt, answer =>
    match o.election.resume attempt answer with
    | .waiting attempt => (e, .waiting (.electing now attempt))
    | .done (.error cause) => (e, .failed (.election cause))
    | .done (.ok (.otherLeader leader)) => (e, .failed (.leadershipDenied leader))
    | .done (.ok .conflict) => (e, .failed .electionConflict)
    | .done (.ok .elected) => openEngine o now e.start
    | .done (.ok .alreadyLeader) => openEngine o now e.start
  | .opening now point, answer => openEngine o now (e.resumeStart point answer)

/-! ## Heartbeats -/

/-- What follows the look at the document. -/
inductive HeartbeatStep where
  | done (result : Except Error Bool)
  /-- The engine is given the renewal to write. -/
  | renew (renewal : Mutation)

/-- Renews only if the document names the broker. -/
def heartbeat (o : Options) (now : Millis) (answer : Store.Answer .read) : HeartbeatStep :=
  match o.election.leads answer with
  | .error cause => .done (.error (.election cause))
  | .ok false => .done (.ok false)
  | .ok true => .renew (.renewBroker o.address now)

/-- What the renewal's verdict says. -/
def renewed : Engine.Verdict → Except Error Bool
  | .ok result => .ok result.isRenewed
  | .error cause => .error (.engine cause)

/-! ## Stopping -/

/-- A broker that has won. -/
def started (o : Options) : Broker := ⟨o, true, false⟩

/-- A stopped broker leads no more; its engine is to be stopped with it. -/
def stop (b : Broker) : Broker := { b with leader := false, stopped := true }

end Broker

end LeaseQueue
