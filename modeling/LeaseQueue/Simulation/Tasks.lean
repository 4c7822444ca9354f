import LeaseQueue.Simulation.World

/-!
# Tasks

One stage of a task: what it does between two points of waiting.  A stage says whether the task may
go on; if not, it waits and gives way to the next task in the queue.
-/

namespace LeaseQueue.Simulation.World

/-! ## Loops of engines -/

def setLoop (id : TaskId) (engine : EngineId) (epoch : Nat) (state : LoopState) : Sim Unit :=
  setTask id (.loop engine epoch state)

/-- Takes over what a step of the loop made of the engine. -/
def followLoop (id : TaskId) (engine : EngineId) (epoch : Nat) (move : Engine.LoopMove) :
    Sim Unit := do
  setEngine engine move.engine
  modify fun w => { w with ids := move.ids }
  move.settled.forM settle
  match move.next with
  | .rest => setLoop id engine epoch .entering
  | .giveWay => setLoop id engine epoch (.givingWay false)
  | .commit point =>
    setLoop id engine epoch (.committing point (← launch (point.call move.engine.options)))
  | .backOff pass wait => setLoop id engine epoch (.backingOff pass (← setAlarm wait))
  | .leave => setTask id .ended

/-- Lets the others go first, if the loop is to go on at all. -/
def giveWay (id : TaskId) (engine : EngineId) (epoch : Nat) (next : Engine.LoopStep) :
    Sim Bool := do
  match next with
  | .giveWay =>
    setLoop id engine epoch (.givingWay false)
    modify fun w => { w with deferred := id :: w.deferred }
  | _ => setTask id .ended
  return false

/-- The loop rests, unless it was called in the meantime or its interval is over at once. -/
def enterLoop (id : TaskId) (engine : EngineId) (epoch : Nat) (station : Station) :
    Sim Bool := do
  match station.engine.enterLoop epoch with
  | .rest =>
    if station.called then
      modify fun w =>
        { w with stations := w.stations.modify engine fun s => { s with called := false } }
      giveWay id engine epoch (station.engine.wakeLoop epoch)
    else if station.engine.options.interval = 0 then
      giveWay id engine epoch (station.engine.wakeLoop epoch)
    else
      setLoop id engine epoch (.resting (← setAlarm station.engine.options.interval) false)
      return false
  | _ =>
    setTask id .ended
    return false

def stepLoop (id : TaskId) (engine : EngineId) (epoch : Nat) (state : LoopState) :
    Sim Bool := do
  let w ← get
  let some station := w.stations[engine]? | return false
  let e := station.engine
  match state with
  | .entering => enterLoop id engine epoch station
  | .resting alarm woken =>
    if woken || alarm.isDue w.time then giveWay id engine epoch (e.wakeLoop epoch)
    else return false
  | .givingWay ready =>
    if ready then
      followLoop id engine epoch (e.drain epoch w.clock w.ids)
      return true
    else return false
  | .committing point (.landed answer) =>
    followLoop id engine epoch (e.resumeCommit epoch w.clock w.ids point answer)
    return true
  | .committing point (.waiting alarm stage) =>
    if alarm.isDue w.time then
      setLoop id engine epoch (.committing point (← flyOn stage))
      return true
    else return false
  | .backingOff pass alarm =>
    if alarm.isDue w.time then
      followLoop id engine epoch (e.attempt pass w.clock w.ids)
      return true
    else return false

/-! ## Heartbeats of brokers -/

/-- A tick that comes later than this is followed by a full interval. -/
def lateness : Nat := 5

/-- The time of the tick after one that is answered now. -/
def nextTick (tick : Alarm) (now interval : Nat) : Nat :=
  if tick.time + lateness < now then now + interval else tick.time + interval

/-- Sets an alarm for a time, which may have come already. -/
def setAlarmAt (time : Nat) : Sim Alarm := do return { ← setAlarm 0 with time }

/-- A heartbeat is over.  A broker that no longer leads stops. -/
def finishBeat (id : TaskId) (broker : BrokerId) (next : Nat)
    (result : Except Broker.Error Bool) : Sim Unit := do
  match result with
  | .ok false =>
    stopBroker broker
    setTask id .ended
  | .ok true | .error _ => setTask id (.heartbeats broker (.ticking (← setAlarmAt next)))
  releaseBroker broker

def stepBeat (id : TaskId) (broker : BrokerId) (state : BeatState) : Sim Bool := do
  let w ← get
  let some throne := w.thrones[broker]? | return false
  let options := throne.broker.options
  match state with
  | .entering =>
    setTask id (.heartbeats broker (.ticking (← setAlarm options.heartbeatInterval)))
    return true
  | .ticking tick =>
    if throne.broker.stopped then
      setTask id .ended
      return false
    else if tick.isDue w.time then
      let next := nextTick tick w.time options.heartbeatInterval
      setTask id (.heartbeats broker (.looking next (← launch options.election.checkCall)))
      return true
    else return false
  | .looking next (.landed answer) =>
    match Broker.heartbeat options w.clock answer with
    | .done result => finishBeat id broker next result
    | .renew renewal =>
      setTask id (.heartbeats broker (.renewing next (← submit throne.engine renewal)))
    return true
  | .looking next (.waiting alarm stage) =>
    if alarm.isDue w.time then
      setTask id (.heartbeats broker (.looking next (← flyOn stage)))
      return true
    else return false
  | .renewing next ticket =>
    match w.verdict? ticket with
    | some verdict =>
      finishBeat id broker next (Broker.renewed verdict)
      return true
    | none => return false

/-- One stage of a task. -/
def stepTask (id : TaskId) : Sim Bool := do
  match (← get).tasks[id]? with
  | some (.loop engine epoch state) => stepLoop id engine epoch state
  | some (.heartbeats broker state) => stepBeat id broker state
  | some .ended | none => return false

end LeaseQueue.Simulation.World
