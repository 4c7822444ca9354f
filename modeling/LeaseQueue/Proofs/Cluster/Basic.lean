import LeaseQueue.Broker
import LeaseQueue.Store.Memory
import Mathlib.Logic.Function.Basic

/-!
# Clusters

Engines, elections and brokers that share one store in memory, in any interleaving.  Whatever waits
is a process: a call on its way, the loop of an engine, a broker that waits for a verdict.  Between
two waits a process runs alone, by the very functions of engines, elections and brokers; a call
takes effect in a step of its own, and its answer is taken note of in another.

A run is any list of acts,

  `run c acts = acts.foldl step c`,

so that whatever holds after every list of acts holds under every scheduler.  An act that is not
possible changes nothing.  Time does not pass by itself: the clock is set by acts, and a rest or a
delay is over when the process is told to proceed.

What happened is kept in a log, the latest first, and no step ever looks into the log but for the
verdicts of submissions.
-/

namespace LeaseQueue

namespace Cluster

/-- An engine of its own, or that of a broker. -/
inductive EngineId where
  | lone (number : Nat)
  | ofBroker (broker : Nat)
deriving DecidableEq, Repr

abbrev BrokerId := Nat
abbrev ProcId := Nat

/-- Who has made a call, and what it goes on with. -/
inductive Caller : Store.Access → Type where
  | start (engine : EngineId) {a : Store.Access} (point : Engine.Startup a) : Caller a
  | commit (engine : EngineId) (epoch : Nat) {a : Store.Access} (point : Engine.Commit a) : Caller a
  | election (election : Election) {a : Store.Access} (attempt : Election.Attempt a) : Caller a
  | broker (broker : BrokerId) {a : Store.Access} (point : Broker.Startup a) : Caller a
  /-- A heartbeat; those that are the broker's own may end its reign. -/
  | beat (broker : BrokerId) (own : Bool) : Caller .read
  /-- Somebody else. -/
  | client {a : Store.Access} (call : Store.Call a) : Caller a

/-- A call before and after its effect.  Whether it will fail is known once it is made. -/
inductive Flight (a : Store.Access) where
  | sent (failure : Option Store.Error)
  | landed (answer : Store.Answer a)

/-- Where a loop stands that does not wait for the store. -/
inductive Pause where
  | entering
  | resting
  | givingWay
  | backingOff (pass : Engine.Pass)

inductive Proc where
  | awaiting {a : Store.Access} (caller : Caller a) (flight : Flight a)
  | loop (engine : EngineId) (epoch : Nat) (pause : Pause)
  /-- A broker that waits for its registration. -/
  | registering (broker : BrokerId) (ticket : Engine.Ticket)
  /-- A heartbeat that waits for its renewal. -/
  | renewing (broker : BrokerId) (own : Bool) (ticket : Engine.Ticket)
  | ended

inductive Reign where
  | unclaimed
  | starting
  | begun (broker : Broker)
  | failed (cause : Broker.Error)

structure Seat where
  options : Broker.Options
  reign : Reign

inductive Event where
  | accepted (engine : EngineId) (pending : Engine.Pending)
  | rejected (engine : EngineId) (pending : Engine.Pending)
  /-- A pass took a batch out of the buffer. -/
  | drained (engine : EngineId) (batch : List Engine.Pending)
  | settled (engine : EngineId) (settlement : Engine.Settlement)
  | called {a : Store.Access} (caller : Caller a) (call : Store.Call a)
  /-- A call took effect, at some reading of the clock. -/
  | landed (time : Millis) {a : Store.Access} (caller : Caller a) (call : Store.Call a)
      (answer : Store.Answer a)
  | started (engine : EngineId) (result : Engine.StartResult)
  /-- An attempt to be elected begins, as of some time. -/
  | stood (election : Election) (now : Millis)
  | elected (election : Election) (outcome : Election.Outcome)
  /-- The document that made a broker win its election. -/
  | crowned (broker : BrokerId) (document : Document)
  | beaten (broker : BrokerId) (result : Except Broker.Error Bool)

/-- What a submission came to. -/
def Event.verdict? (ticket : Engine.Ticket) : Event → Option Engine.Verdict
  | .settled _ s => if s.ticket = ticket then some s.verdict else none
  | .rejected _ p => if p.ticket = ticket then some (.error .stopped) else none
  | _ => none

end Cluster

open Cluster in
structure Cluster where
  clock : Millis
  ids : IdSupply
  memory : Store.Memory
  engines : EngineId → Engine
  seats : BrokerId → Seat
  procs : List Proc
  /-- The number of submissions so far. -/
  tickets : Nat
  log : List Event

namespace Cluster

/-- Nothing has been started yet. -/
def init (engines : Nat → Engine.Options) (brokers : BrokerId → Broker.Options)
    (memory : Store.Memory) (ids : IdSupply) (clock : Millis) : Cluster where
  clock := clock
  ids := ids
  memory := memory
  engines
    | .lone n => Engine.create (engines n)
    | .ofBroker b => Engine.create (brokers b).engine
  seats b := ⟨brokers b, .unclaimed⟩
  procs := []
  tickets := 0
  log := []

def verdict? (c : Cluster) (ticket : Engine.Ticket) : Option Engine.Verdict :=
  c.log.findSome? (Event.verdict? ticket)

/-- The call that a caller makes. -/
def callOf (c : Cluster) {a : Store.Access} : Caller a → Store.Call a
  | .start e point => point.call (c.engines e).options
  | .commit e _ point => point.call (c.engines e).options
  | .election election attempt => attempt.call election
  | .broker b point => point.call (c.seats b).options
  | .beat b _ => (c.seats b).options.election.checkCall
  | .client call => call

/-! ## Parts of a step -/

def record (c : Cluster) (event : Event) : Cluster := { c with log := event :: c.log }

def setEngine (c : Cluster) (e : EngineId) (engine : Engine) : Cluster :=
  { c with engines := Function.update c.engines e engine }

def setIds (c : Cluster) (ids : IdSupply) : Cluster := { c with ids }

def setReign (c : Cluster) (b : BrokerId) (reign : Reign) : Cluster :=
  { c with seats := Function.update c.seats b { c.seats b with reign } }

def setProc (c : Cluster) (i : ProcId) (proc : Proc) : Cluster :=
  { c with procs := c.procs.set i proc }

def spawn (c : Cluster) (proc : Proc) : Cluster := { c with procs := c.procs ++ [proc] }

def settle (c : Cluster) (e : EngineId) (settled : List Engine.Settlement) : Cluster :=
  { c with log := (settled.map (Event.settled e)).reverse ++ c.log }

/-- A process makes a call and waits. -/
def launch (c : Cluster) (i : ProcId) {a : Store.Access} (caller : Caller a) : Cluster :=
  let call := c.callOf caller
  let (memory, pending) := c.memory.accept call
  ({ c with memory }.setProc i (.awaiting caller (.sent pending.failure))).record
    (.called caller call)

/-- A new process makes a call and waits. -/
def begin (c : Cluster) {a : Store.Access} (caller : Caller a) : Cluster :=
  (c.spawn .ended).launch c.procs.length caller

/-- Submits a mutation under a new ticket. -/
def submit (c : Cluster) (e : EngineId) (m : Mutation) : Cluster :=
  let pending : Engine.Pending := ⟨c.tickets, m⟩
  let c := { c with tickets := c.tickets + 1 }
  match (c.engines e).submit pending with
  | (_, .rejected) => c.record (.rejected e pending)
  | (engine, .buffered _) => (c.setEngine e engine).record (.accepted e pending)

def stopEngine (c : Cluster) (e : EngineId) : Cluster :=
  match (c.engines e).stop? with
  | none => c
  | some (engine, settled) => (c.setEngine e engine).settle e settled

/-- The engine is stopped with its broker. -/
def stopBroker (c : Cluster) (b : BrokerId) : Cluster :=
  match (c.seats b).reign with
  | .begun broker => (c.setReign b (.begun broker.stop)).stopEngine (.ofBroker b)
  | _ => c

/-! ## Following a move -/

/-- A start goes on, or runs a loop. -/
def followStart (c : Cluster) (i : ProcId) (e : EngineId) :
    Engine × Engine.Startup.Progress → Cluster
  | (engine, .waiting point) => (c.setEngine e engine).launch i (.start e point)
  | (engine, .done result) =>
    let c := ((c.setEngine e engine).setProc i .ended).record (.started e result)
    match result with
    | .running epoch _ => c.spawn (.loop e epoch .entering)
    | .already => c
    | .failed _ => c

/-- What a loop does next. -/
def followLoop (c : Cluster) (i : ProcId) (e : EngineId) (epoch : Nat) :
    Engine.LoopStep → Cluster
  | .rest => c.setProc i (.loop e epoch .resting)
  | .giveWay => c.setProc i (.loop e epoch .givingWay)
  | .commit point => c.launch i (.commit e epoch point)
  | .backOff pass _ => c.setProc i (.loop e epoch (.backingOff pass))
  | .leave => c.setProc i .ended

/-- What a loop left behind, and what it does next. -/
def followMove (c : Cluster) (i : ProcId) (e : EngineId) (epoch : Nat) (move : Engine.LoopMove) :
    Cluster :=
  let c := (c.setEngine e move.engine).setIds move.ids
  (c.settle e move.settled).followLoop i e epoch move.next

def followElection (c : Cluster) (i : ProcId) (election : Election) :
    Store.Progress Election.Attempt Election.Outcome → Cluster
  | .waiting attempt => c.launch i (.election election attempt)
  | .done outcome => (c.setProc i .ended).record (.elected election outcome)

/-- A broker's start goes on, registers the broker or has failed. -/
def followBroker (c : Cluster) (i : ProcId) (b : BrokerId) :
    Engine × Broker.StartStep → Cluster
  | (engine, .waiting point) => (c.setEngine (.ofBroker b) engine).launch i (.broker b point)
  | (engine, .register epoch _ registration) =>
    let c := (c.setEngine (.ofBroker b) engine).spawn (.loop (.ofBroker b) epoch .entering)
    (c.submit (.ofBroker b) registration).setProc i (.registering b c.tickets)
  | (engine, .failed cause) =>
    ((c.setEngine (.ofBroker b) engine).setReign b (.failed cause)).setProc i .ended

/-- The document that an election was won by: the one that was stored, or the one that was read. -/
def wonBy (election : Election) {a : Store.Access} :
    Election.Attempt a → Store.Answer a → Option Document
  | .looking now, .ok (some object) =>
    match Document.decode object.data with
    | .ok document =>
      if document.broker = some election.address && election.isFresh document now then some document
      else none
    | .error _ => none
  | .looking _, _ => none
  | .founding document, .ok _ => some document
  | .takingOver document _, .ok _ => some document
  | .founding _, .error _ => none
  | .takingOver _ _, .error _ => none

def crown? (options : Broker.Options) {a : Store.Access} :
    Broker.Startup a → Store.Answer a → Option Document
  | .electing _ attempt, answer => wonBy options.election attempt answer
  | .opening _ _, _ => none

/-- Takes note of a won election. -/
def crown (c : Cluster) (b : BrokerId) : Option Document → Cluster
  | some document => c.record (.crowned b document)
  | none => c

/-- The registration has its verdict. -/
def enthrone (c : Cluster) (i : ProcId) (b : BrokerId) (verdict : Engine.Verdict) : Cluster :=
  let c := c.setProc i .ended
  match verdict with
  | .ok _ => c.setReign b (.begun (Broker.started (c.seats b).options))
  | .error cause => (c.setReign b (.failed (.engine cause))).stopEngine (.ofBroker b)

/-- A broker that finds itself superseded by its own heartbeat stops. -/
def finishBeat (c : Cluster) (i : ProcId) (b : BrokerId) (own : Bool)
    (result : Except Broker.Error Bool) : Cluster :=
  let c := (c.setProc i .ended).record (.beaten b result)
  match own, result with
  | true, .ok false => c.stopBroker b
  | _, _ => c

def followBeat (c : Cluster) (i : ProcId) (b : BrokerId) (own : Bool) :
    Broker.HeartbeatStep → Cluster
  | .done result => c.finishBeat i b own result
  | .renew renewal => (c.submit (.ofBroker b) renewal).setProc i (.renewing b own c.tickets)

/-! ## Steps -/

/-- A process goes on with the store's answer. -/
def resume (c : Cluster) (i : ProcId) {a : Store.Access} (caller : Caller a)
    (answer : Store.Answer a) : Cluster :=
  match caller, answer with
  | .start e point, answer => c.followStart i e ((c.engines e).resumeStart point answer)
  | .commit e epoch point, answer =>
    c.followMove i e epoch ((c.engines e).resumeCommit epoch c.clock c.ids point answer)
  | .election election attempt, answer =>
    c.followElection i election (election.resume attempt answer)
  | .broker b point, answer =>
    let options := (c.seats b).options
    (c.crown b (crown? options point answer)).followBroker i b
      (Broker.resumeStart options (c.engines (.ofBroker b)) point answer)
  | .beat b own, answer =>
    c.followBeat i b own (Broker.heartbeat (c.seats b).options c.clock answer)
  | .client _, _ => c.setProc i .ended

/-- Takes note of what a pass will take out of the buffer. -/
def noteBatch (c : Cluster) (e : EngineId) : Cluster :=
  match (c.engines e).buffer with
  | [] => c
  | batch => c.record (.drained e batch)

/-- The loop of an engine goes on after a pause. -/
def stepLoop (c : Cluster) (i : ProcId) (e : EngineId) (epoch : Nat) : Pause → Cluster
  | .entering => c.followLoop i e epoch ((c.engines e).enterLoop epoch)
  | .resting => c.followLoop i e epoch ((c.engines e).wakeLoop epoch)
  | .givingWay =>
    (c.noteBatch e).followMove i e epoch ((c.engines e).drain epoch c.clock c.ids)
  | .backingOff pass => c.followMove i e epoch ((c.engines e).attempt pass c.clock c.ids)

/-- A process goes on, if it can. -/
def proceed (c : Cluster) (i : ProcId) : Cluster :=
  match c.procs[i]? with
  | some (.awaiting caller (.landed answer)) => c.resume i caller answer
  | some (.loop e epoch pause) => c.stepLoop i e epoch pause
  | some (.registering b ticket) =>
    match c.verdict? ticket with
    | some verdict => c.enthrone i b verdict
    | none => c
  | some (.renewing b own ticket) =>
    match c.verdict? ticket with
    | some verdict => c.finishBeat i b own (Broker.renewed verdict)
    | none => c
  | _ => c

/-- A call has taken effect, and left the store like this. -/
def landed (c : Cluster) (i : ProcId) {a : Store.Access} (caller : Caller a)
    (answer : Store.Answer a) (memory : Store.Memory) : Cluster :=
  ({ c with memory }.setProc i (.awaiting caller (.landed answer))).record
    (.landed c.clock caller (c.callOf caller) answer)

/-- The call of a process takes effect. -/
def land (c : Cluster) (i : ProcId) : Cluster :=
  match c.procs[i]? with
  | some (.awaiting caller (.sent failure)) =>
    let (answer, memory) := c.memory.finish ⟨c.callOf caller, failure⟩
    c.landed i caller answer memory
  | _ => c

/-- An engine can be reached: that of a broker only while the broker reigns. -/
def isOpen (c : Cluster) : EngineId → Bool
  | .lone _ => true
  | .ofBroker b => match (c.seats b).reign with
    | .begun _ => true
    | _ => false

inductive Act where
  | setClock (time : Millis)
  | setMemory (options : Store.Memory.Options)
  | submit (engine : EngineId) (mutation : Mutation)
  | startEngine (engine : EngineId)
  | stopEngine (engine : EngineId)
  | elect (election : Election) (now : Millis)
  /-- Somebody else makes a call. -/
  | call {a : Store.Access} (call : Store.Call a)
  | startBroker (broker : BrokerId)
  | beat (broker : BrokerId) (own : Bool)
  | stopBroker (broker : BrokerId)
  | land (proc : ProcId)
  | proceed (proc : ProcId)

def startEngine (c : Cluster) (e : EngineId) : Cluster :=
  (c.spawn .ended).followStart c.procs.length e (c.engines e).start

def elect (c : Cluster) (election : Election) (now : Millis) : Cluster :=
  (c.record (.stood election now)).begin (.election election (.looking now))

/-- A broker is started once. -/
def startBroker (c : Cluster) (b : BrokerId) : Cluster :=
  match (c.seats b).reign with
  | .unclaimed =>
    ((c.setReign b .starting).record (.stood (c.seats b).options.election c.clock)).begin
      (.broker b (Broker.begin c.clock))
  | _ => c

def beat (c : Cluster) (b : BrokerId) (own : Bool) : Cluster :=
  match (c.seats b).reign with
  | .begun _ => c.begin (.beat b own)
  | _ => c

def step (c : Cluster) : Act → Cluster
  | .setClock clock => { c with clock }
  | .setMemory options => { c with memory := { c.memory with options } }
  | .submit e m => if c.isOpen e then c.submit e m else c
  | .startEngine e => if c.isOpen e then c.startEngine e else c
  | .stopEngine e => if c.isOpen e then c.stopEngine e else c
  | .elect election now => c.elect election now
  | .call call => c.begin (.client call)
  | .startBroker b => c.startBroker b
  | .beat b own => c.beat b own
  | .stopBroker b => c.stopBroker b
  | .land i => c.land i
  | .proceed i => c.proceed i

def run (c : Cluster) (acts : List Act) : Cluster := acts.foldl step c

/-! ## Lemmas -/

variable (c : Cluster)

theorem engines_setEngine_self (e : EngineId) (engine : Engine) :
    (c.setEngine e engine).engines e = engine := Function.update_self ..

theorem engines_setEngine_of_ne {d e : EngineId} (h : d ≠ e) (engine : Engine) :
    (c.setEngine e engine).engines d = c.engines d := Function.update_of_ne h ..

theorem seats_setReign_self (b : BrokerId) (reign : Reign) :
    (c.setReign b reign).seats b = { c.seats b with reign } := Function.update_self ..

theorem seats_setReign_of_ne {b d : BrokerId} (h : d ≠ b) (reign : Reign) :
    (c.setReign b reign).seats d = c.seats d := Function.update_of_ne h ..

theorem run_append (acts more : List Act) : c.run (acts ++ more) = (c.run acts).run more :=
  List.foldl_append

theorem Act.land_or (act : Act) : (∃ i, act = .land i) ∨ ∀ i, act ≠ .land i := by
  by_cases h : ∃ i, act = .land i
  · exact .inl h
  · exact .inr fun i hi => h ⟨i, hi⟩

/-- Whatever is among the processes after one of them went on. -/
theorem getElem?_procs_set {procs : List Proc} {i j : ProcId} {p q : Proc}
    (hq : (procs.set i p)[j]? = some q) : (j = i ∧ q = p) ∨ procs[j]? = some q := by
  rw [List.getElem?_set] at hq
  split at hq
  next hij =>
    split at hq
    · cases hq
      exact .inl ⟨hij.symm, rfl⟩
    · cases hq
  · exact .inr hq

end Cluster

end LeaseQueue
