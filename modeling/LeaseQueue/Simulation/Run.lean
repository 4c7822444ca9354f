import LeaseQueue.Simulation.Threads

/-!
# Running a script

A round begins with the threads, if something has woken them: every unfinished branch is tried in
order, each as far as it goes.  Then the queued tasks run, first come, first served.  When none is
left, those that let others go first are queued, the last of them first; only if nobody is awake does
time jump to the next alarm.

`step` is one stage of all this, so that a run is nothing but steps one after another.
-/

namespace LeaseQueue.Simulation

/-- How many tasks may run in one round. -/
def roundLength : Nat := 61

/-- Ids in the form of random UUIDs, numbered. -/
def generatedId (n : Nat) : JobId :=
  let digits := Nat.toDigits 16 n
  "7d1e60b4-93c5-4f2a-a8d7-" ++
    String.ofList (List.replicate (12 - digits.length) '0' ++ digits)

namespace World

/-- A script on a store, not yet begun. -/
def start (clock : Millis) (stack : Stack) (script : List Step) : World where
  time := 0
  clock := clock
  stack := stack
  ids := ⟨generatedId, 0⟩
  aliases := .empty
  alarmsSet := 0
  stations := #[]
  thrones := #[]
  tasks := #[]
  threads := #[⟨script, .ready, []⟩]
  verdicts := #[]
  engineNames := []
  electionNames := []
  brokerNames := []
  labels := []
  awake := true
  roundBegins := true
  turns := []
  running := none
  queue := []
  budget := 0
  deferred := []

/-- Where a thread stands; one that is not there has nothing left to do. -/
def stateOf (w : World) (id : ThreadId) : ThreadState :=
  (w.threads[id]?).elim .finished (·.state)

def hasFinished (w : World) (id : ThreadId) : Bool :=
  match w.stateOf id with
  | .finished => true
  | _ => false

/-- The script is done. -/
def isFinished (w : World) : Bool := w.hasFinished 0

/-- The records of a thread, the first one first. -/
def recordsOf (w : World) (id : ThreadId) : List Record :=
  (w.threads[id]?.map (·.records.reverse)).getD []

/-- The outcomes of the script, with their times. -/
def records (w : World) : List Record := w.recordsOf 0

/-! ## Time -/

/-- When the next alarm rings. -/
def nextAlarm? (w : World) : Option Nat :=
  let alarms := w.tasks.toList.flatMap Task.alarms ++
    w.threads.toList.flatMap fun t => t.state.alarms
  (alarms.filterMap fun a => if w.time < a.time then some a.time else none).min?

/-- The tasks that are woken at a time, in the order of their alarms. -/
def tasksAt (w : World) (time : Nat) : List TaskId :=
  let rings := w.tasks.toList.zipIdx.flatMap fun (task, id) =>
    (task.alarms.filter (·.time == time)).map fun a => (a.order, id)
  (rings.mergeSort fun a b => a.1 ≤ b.1).map (·.2)

/-- Lets time jump, and wakes whoever has set an alarm for then. -/
def jump (time : Nat) : Sim Unit := do
  let w ← get
  set { w with
    time
    awake := w.awake || w.threads.any fun t => t.state.alarms.any (·.time == time) }
  (w.tasksAt time).forM enqueue

/-- Queues the tasks that let others go first. -/
def requeue : Sim Unit := do
  let w ← get
  set { w with deferred := [] }
  for id in w.deferred do
    match (← get).tasks[id]? with
    | some (.loop engine epoch (.givingWay _)) =>
      setTask id (.loop engine epoch (.givingWay true))
      enqueue id
    | _ => pure ()

/-- Ends a round; without a next alarm and with nobody awake nothing will ever happen again. -/
def endRound (idle : Bool) : Sim Bool := do
  let w ← get
  set { w with roundBegins := true }
  if idle && w.deferred.isEmpty && !w.awake then
    match w.nextAlarm? with
    | some time =>
      jump time
      return true
    | none => return false
  else
    requeue
    return true

/-! ## Stages -/

/-- One stage among the threads. -/
def stepTurn (turn : Turn) (turns : List Turn) : Sim Unit := do
  let w ← get
  match turn with
  | .visit id =>
    match w.stateOf id with
    | .joining children =>
      set { w with
        turns := (children.filter (!w.hasFinished ·)).map Turn.visit ++ Turn.rejoin id :: turns }
    | _ => unless ← stepThread id do modify fun w => { w with turns }
  | .rejoin id =>
    match w.stateOf id with
    | .joining children =>
      if children.all w.hasFinished then
        record id (.branches (children.map w.recordsOf))
        modify fun w => { w with turns := .visit id :: turns }
      else set { w with turns }
    | _ => set { w with turns }

/-- One stage; `false` if nothing is left to do. -/
def step : Sim Bool := do
  let w ← get
  if w.isFinished then return false
  match w.turns, w.running with
  | turn :: turns, _ =>
    stepTurn turn turns
    return true
  | [], some id =>
    unless ← stepTask id do modify fun w => { w with running := none }
    return true
  | [], none =>
    if w.roundBegins then
      set { w with
        roundBegins := false
        budget := roundLength
        awake := false
        turns := if w.awake then [.visit 0] else [] }
      return true
    else if w.budget = 0 then endRound false
    else
      match w.queue with
      | id :: queue =>
        set { w with queue, running := some id, budget := w.budget - 1 }
        return true
      | [] => endRound true

/-- At most so many stages. -/
def run : Nat → World → World
  | 0, w => w
  | n + 1, w =>
    let (goesOn, w) := step.run w
    if goesOn then run n w else w

end World

end LeaseQueue.Simulation
