import LeaseQueue.ObjectPath
import LeaseQueue.Queue.Format
import LeaseQueue.Store.Basic

/-!
# Elections

The leader is the broker that the document names, as long as it was heard of within the timeout.
Whoever finds no document creates one that names itself; whoever finds a stale or missing leader
replaces the document, on condition that it is still the one that was read.  So of all who race for
the same document at most one is elected, and the others see a conflict.
-/

namespace LeaseQueue

structure Election where
  /-- The broker that stands for election. -/
  address : String
  stateKey : String
  heartbeatTimeout : Millis
deriving DecidableEq, Repr

namespace Election

/-- A leader is heard of often enough within this time. -/
def defaultTimeout : Millis := 10000

inductive Error where
  | storage (cause : Store.Error)
  /-- The stored document cannot be read. -/
  | codec (cause : ReadError)
deriving DecidableEq, Repr

/-- A document that cannot be read has no text of its own. -/
def Error.message? : Error → Option String
  | .storage cause => some cause.message
  | .codec _ => none

inductive Result where
  | elected
  | alreadyLeader
  /-- Another broker is in charge. -/
  | otherLeader (leader : String)
  /-- Someone else's put came first. -/
  | conflict
deriving DecidableEq, Repr

namespace Result

def isLeader : Result → Bool
  | .elected | .alreadyLeader => true
  | .otherLeader _ | .conflict => false

def name : Result → String
  | .elected => "elected"
  | .alreadyLeader => "already_leader"
  | .otherLeader _ => "other_leader"
  | .conflict => "conflict"

end Result

abbrev Outcome := Except Error Result

/-- Where an attempt waits for the store. -/
inductive Attempt : Store.Access → Type where
  | looking (now : Millis) : Attempt .read
  /-- Creates a document. -/
  | founding (document : Document) : Attempt .put
  /-- Replaces the document under `expected`. -/
  | takingOver (document : Document) (expected : Store.Token) : Attempt .put
deriving DecidableEq, Repr

def Attempt.call (e : Election) {a : Store.Access} : Attempt a → Store.Call a
  | .looking _ => .read e.stateKey
  | .founding document => .create e.stateKey document.encode
  | .takingOver document expected => .write e.stateKey document.encode expected

/-- The document's broker has been heard of within the timeout. -/
def isFresh (e : Election) (d : Document) (now : Millis) : Bool :=
  !now.isPast d.brokerHeartbeat e.heartbeatTimeout

/-- What to do about a document: stand back, or take over. -/
def consider (e : Election) (d : Document) (token : Store.Token) (now : Millis) :
    Store.Progress Attempt Outcome :=
  match d.broker with
  | some leader =>
    if e.isFresh d now then
      if leader = e.address then .done (.ok .alreadyLeader) else .done (.ok (.otherLeader leader))
    else .waiting (.takingOver (d.registerBroker e.address now) token)
  | none => .waiting (.takingOver (d.registerBroker e.address now) token)

/-- What the reply to a put says about the race. -/
def verdict : Store.Answer .put → Outcome
  | .ok _ => .ok .elected
  | .error (.conflict _) => .ok .conflict
  | .error cause => .error (.storage cause)

/-- Goes on with the store's answer. -/
def resume (e : Election) {a : Store.Access} :
    Attempt a → Store.Answer a → Store.Progress Attempt Outcome
  | .looking _, .error cause => .done (.error (.storage cause))
  | .looking now, .ok none => .waiting (.founding (Document.withBroker e.address now))
  | .looking now, .ok (some object) =>
    match Document.decode object.data with
    | .error cause => .done (.error (.codec cause))
    | .ok document => e.consider document object.token now
  | .founding _, answer => .done (verdict answer)
  | .takingOver _ _, answer => .done (verdict answer)

/-! ## Looking whether one still leads -/

def checkCall (e : Election) : Store.Call .read := .read e.stateKey

/-- Whether the document that was read names this broker. -/
def leads (e : Election) : Store.Answer .read → Except Error Bool
  | .error cause => .error (.storage cause)
  | .ok none => .ok false
  | .ok (some object) =>
    match Document.decode object.data with
    | .error cause => .error (.codec cause)
    | .ok document => .ok (document.broker == some e.address)

end Election

end LeaseQueue
