import LeaseQueue.Simulation.Script
import LeaseQueue.Simulation.Stack

/-!
# The world of a simulation

Time is virtual: it stands still while anything can go on, and then jumps to the next alarm.  What
goes on are tasks, the loops of engines and the heartbeats of brokers, and the threads of the script.
Each of them is at a point of waiting, given as data, or ready to go on.

Alarms that are due at the same time ring in the order in which they were set.
-/

namespace LeaseQueue.Simulation

structure Alarm where
  time : Nat
  /-- How many alarms were set before. -/
  order : Nat
deriving DecidableEq, Repr

def Alarm.isDue (a : Alarm) (now : Nat) : Bool := a.time ≤ now

/-- A call on its way through the layers. -/
inductive Flight (a : Store.Access) where
  | landed (answer : Store.Answer a)
  | waiting (alarm : Alarm) (stage : Stage a)

namespace Flight

def alarms {a : Store.Access} : Flight a → List Alarm
  | .landed _ => []
  | .waiting alarm _ => [alarm]

def isDue {a : Store.Access} (f : Flight a) (now : Nat) : Bool := f.alarms.all (·.isDue now)

end Flight

abbrev EngineId := Nat
abbrev BrokerId := Nat
abbrev TaskId := Nat
abbrev ThreadId := Nat

/-! ## Tasks -/

inductive LoopState where
  | entering
  | resting (alarm : Alarm) (woken : Bool)
  /-- Lets others go first; `ready` once they had their turn. -/
  | givingWay (ready : Bool)
  | committing {a : Store.Access} (point : Engine.Commit a) (flight : Flight a)
  | backingOff (pass : Engine.Pass) (alarm : Alarm)

inductive BeatState where
  | entering
  | ticking (tick : Alarm)
  /-- The next tick has its time, and gets its alarm when the heartbeat is over. -/
  | looking (next : Nat) (flight : Flight .read)
  | renewing (next : Nat) (ticket : Engine.Ticket)

inductive Task where
  | loop (engine : EngineId) (epoch : Nat) (state : LoopState)
  | heartbeats (broker : BrokerId) (state : BeatState)
  | ended

def Task.alarms : Task → List Alarm
  | .loop _ _ (.resting alarm _) => [alarm]
  | .loop _ _ (.committing _ flight) => flight.alarms
  | .loop _ _ (.backingOff _ alarm) => [alarm]
  | .loop _ _ _ => []
  | .heartbeats _ (.ticking tick) => [tick]
  | .heartbeats _ (.looking _ flight) => flight.alarms
  | .heartbeats _ _ => []
  | .ended => []

/-- The broker that a heartbeat is being made for. -/
def Task.beats? : Task → Option BrokerId
  | .heartbeats broker (.looking _ _) => some broker
  | .heartbeats broker (.renewing _ _) => some broker
  | _ => none

/-! ## Threads -/

/-- What a step makes of the verdicts that it has awaited. -/
inductive View where
  | one
  | each
  | ids
  | claimed
  | ok
  | renewed
deriving DecidableEq, Repr

inductive ThreadState where
  | ready
  | finished
  | sleeping (alarm : Alarm)
  | reading (flight : Flight .read)
  | putting (flight : Flight .put)
  /-- Another client reads. -/
  | foreignReading (key : String) (ms : List Mutation) (alarm : Alarm)
      (pending : Store.Memory.Pending .read)
  /-- Another client puts. -/
  | foreignPutting (results : List MutationResult) (alarm : Alarm)
      (pending : Store.Memory.Pending .put)
  | starting {a : Store.Access} (engine : EngineId) (point : Engine.Startup a) (flight : Flight a)
  | awaiting (view : View) (got : List Engine.Verdict) (todo : List Engine.Ticket)
  | electing {a : Store.Access} (election : Election) (point : Election.Attempt a)
      (flight : Flight a)
  | checking (election : Election) (flight : Flight .read)
  | enthroning {a : Store.Access} (name : String) (options : Broker.Options) (engine : EngineId)
      (point : Broker.Startup a) (flight : Flight a)
  | registering (name : String) (options : Broker.Options) (engine : EngineId)
      (ticket : Engine.Ticket)
  | looking (broker : BrokerId) (flight : Flight .read)
  | renewing (broker : BrokerId) (ticket : Engine.Ticket)
  | watching (broker : BrokerId) (alarm : Alarm)
  | joining (children : List ThreadId)

namespace ThreadState

def alarms : ThreadState → List Alarm
  | sleeping alarm => [alarm]
  | reading flight => flight.alarms
  | putting flight => flight.alarms
  | foreignReading _ _ alarm _ => [alarm]
  | foreignPutting _ alarm _ => [alarm]
  | starting _ _ flight => flight.alarms
  | electing _ _ flight => flight.alarms
  | checking _ flight => flight.alarms
  | enthroning _ _ _ _ flight => flight.alarms
  | looking _ flight => flight.alarms
  | watching _ alarm => [alarm]
  | ready | finished | awaiting _ _ _ | registering _ _ _ _ | renewing _ _ | joining _ => []

/-- The submission that is waited for. -/
def ticket? : ThreadState → Option Engine.Ticket
  | awaiting _ _ (t :: _) => some t
  | registering _ _ _ t => some t
  | renewing _ t => some t
  | _ => none

/-- The broker that is held on to. -/
def broker? : ThreadState → Option BrokerId
  | looking b _ => some b
  | renewing b _ => some b
  | watching b _ => some b
  | _ => none

end ThreadState

structure Thread where
  steps : List Step
  state : ThreadState
  /-- The latest first. -/
  records : List Record

/-! ## The world -/

structure Station where
  engine : Engine
  /-- The loop was called while it did not rest. -/
  called : Bool

structure Throne where
  broker : Broker
  engine : EngineId
  /-- It is still known by a name. -/
  named : Bool
  /-- Nobody holds on to it any more. -/
  dropped : Bool

/-- Whose turn it is among the threads. -/
inductive Turn where
  | visit (thread : ThreadId)
  /-- Looks whether the branches of a thread are done. -/
  | rejoin (thread : ThreadId)

structure World where
  time : Nat
  clock : Millis
  stack : Stack
  ids : IdSupply
  aliases : Aliases
  alarmsSet : Nat
  stations : Array Station
  thrones : Array Throne
  tasks : Array Task
  threads : Array Thread
  verdicts : Array (Option Engine.Verdict)
  engineNames : List (String × EngineId)
  electionNames : List (String × Election)
  brokerNames : List (String × BrokerId)
  labels : List (String × Engine.Ticket)
  /-- The threads are to be tried. -/
  awake : Bool
  /-- A round begins: the threads come before the tasks. -/
  roundBegins : Bool
  turns : List Turn
  running : Option TaskId
  queue : List TaskId
  /-- How many tasks may still run in this round. -/
  budget : Nat
  /-- Tasks that let others go first, the latest first. -/
  deferred : List TaskId

abbrev Sim := StateM World

namespace World

/-- Puts an entry in front of earlier ones with its name. -/
def bind {α : Type} (name : String) (a : α) (names : List (String × α)) : List (String × α) :=
  (name, a) :: names.filter (·.1 != name)

/-! ### Alarms and calls -/

def setAlarm (ms : Nat) : Sim Alarm := do
  let w ← get
  set { w with alarmsSet := w.alarmsSet + 1 }
  return ⟨w.time + ms, w.alarmsSet⟩

def surroundings (w : World) : Surroundings := ⟨w.time, w.clock, w.ids⟩

/-- Takes over what a move made of the layers. -/
def fly {a : Store.Access} (move : StackMove a) : Sim (Flight a) := do
  modify fun w => { w with stack := move.stack, ids := move.ids }
  match move.leg with
  | .landed answer => return .landed answer
  | .waiting wait stage => return .waiting (← setAlarm wait) stage

def launch {a : Store.Access} (call : Store.Call a) : Sim (Flight a) := do
  let w ← get
  fly (w.stack.call w.surroundings call)

def flyOn {a : Store.Access} (stage : Stage a) : Sim (Flight a) := do
  let w ← get
  fly (w.stack.resume w.surroundings stage)

/-! ### Waking -/

def enqueue (task : TaskId) : Sim Unit :=
  modify fun w => if w.queue.contains task then w else { w with queue := w.queue ++ [task] }

def setTask (id : TaskId) (task : Task) : Sim Unit :=
  modify fun w => { w with tasks := w.tasks.setIfInBounds id task }

/-- A new task is queued at once. -/
def spawn (task : Task) : Sim Unit := do
  let w ← get
  set { w with tasks := w.tasks.push task }
  enqueue w.tasks.size

/-- Wakes the tasks that `awoken` changes. -/
def wakeTasks (awoken : Task → Option Task) : Sim Unit := do
  for (task, id) in (← get).tasks.toList.zipIdx do
    if let some task := awoken task then
      setTask id task
      enqueue id

/-- The loop of an engine, if it rests and has not been woken. -/
def wakeLoop? (engine : EngineId) : Task → Option Task
  | .loop e epoch (.resting alarm false) =>
    if e = engine then some (.loop e epoch (.resting alarm true)) else none
  | _ => none

/-- Calls the loop of an engine, or leaves word for it. -/
def callLoop (engine : EngineId) : Sim Unit := do
  let w ← get
  if w.tasks.any fun t => (wakeLoop? engine t).isSome then wakeTasks (wakeLoop? engine)
  else set { w with stations := w.stations.modify engine fun s => { s with called := true } }

/-! ### Engines -/

def setEngine (id : EngineId) (engine : Engine) : Sim Unit :=
  modify fun w => { w with stations := w.stations.modify id fun s => { s with engine } }

def newEngine (options : Engine.Options) : Sim EngineId := do
  let w ← get
  set { w with stations := w.stations.push ⟨Engine.create options, false⟩ }
  return w.stations.size

/-- Gives a verdict to whoever waits for it. -/
def settle (s : Engine.Settlement) : Sim Unit := do
  modify fun w => { w with
    verdicts := w.verdicts.setIfInBounds s.ticket (some s.verdict)
    awake := w.awake || w.threads.any fun t => t.state.ticket? == some s.ticket }
  wakeTasks fun
    | .heartbeats b (.renewing next t) =>
      if t = s.ticket then some (.heartbeats b (.renewing next t)) else none
    | _ => none

def verdict? (w : World) (ticket : Engine.Ticket) : Option Engine.Verdict :=
  (w.verdicts[ticket]?).join

/-- Submits a mutation under a new ticket. -/
def submit (id : EngineId) (m : Mutation) : Sim Engine.Ticket := do
  let w ← get
  let ticket := w.verdicts.size
  set { w with verdicts := w.verdicts.push none }
  if let some station := w.stations[id]? then
    let (engine, admission) := station.engine.submit ⟨ticket, m⟩
    setEngine id engine
    match admission with
    | .rejected => settle ⟨ticket, .error .stopped⟩
    | .buffered kick => if kick then callLoop id
  return ticket

def stopEngine (id : EngineId) : Sim Unit := do
  if let some station := (← get).stations[id]? then
    if let some (engine, settled) := station.engine.stop? then
      setEngine id engine
      settled.forM settle
      wakeTasks (wakeLoop? id)

/-- An engine runs a loop from now on. -/
def runLoop (id : EngineId) (epoch : Nat) (kick : Bool) : Sim Unit := do
  spawn (.loop id epoch .entering)
  if kick then callLoop id

/-! ### Brokers -/

def stopBroker (id : BrokerId) : Sim Unit := do
  if let some throne := (← get).thrones[id]? then
    stopEngine throne.engine
    modify fun w => { w with
      thrones := w.thrones.modify id fun t => { t with broker := t.broker.stop }
      awake := w.awake || w.threads.any fun t => match t.state with
        | .watching b _ => b == id
        | _ => false }
    wakeTasks fun
      | .heartbeats b (.ticking tick) =>
        if b = id then some (.heartbeats b (.ticking tick)) else none
      | _ => none

/-- Stops a broker once nobody holds on to it. -/
def releaseBroker (id : BrokerId) : Sim Unit := do
  let w ← get
  if let some throne := w.thrones[id]? then
    let held := throne.named || w.tasks.any (·.beats? == some id) ||
      w.threads.any (·.state.broker? == some id)
    unless held || throne.dropped do
      set { w with thrones := w.thrones.modify id fun t => { t with dropped := true } }
      stopBroker id

/-- A name no longer stands for a broker. -/
def forgetBroker (name : String) : Sim Unit := do
  let w ← get
  if let some id := w.brokerNames.lookup name then
    set { w with
      brokerNames := w.brokerNames.filter (·.1 != name)
      thrones := w.thrones.modify id fun t => { t with named := false } }
    releaseBroker id

/-- A broker has been started under a name; one that had the name before is forgotten. -/
def enthrone (name : String) (options : Broker.Options) (engine : EngineId) : Sim Unit := do
  let id := (← get).thrones.size
  modify fun w => { w with
    thrones := w.thrones.push ⟨Broker.started options, engine, true, false⟩ }
  spawn (.heartbeats id .entering)
  forgetBroker name
  modify fun w => { w with
    brokerNames := bind name id w.brokerNames
    engineNames := bind name engine w.engineNames }

end World

end LeaseQueue.Simulation
