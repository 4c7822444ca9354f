import LeaseQueue.Simulation.Tasks

/-!
# Threads of a script

One stage of a thread: it begins its next step, or goes on with the step at which it waits.  When a
step is done its outcome is recorded with the time, and the generated ids in it get their names.
-/

namespace LeaseQueue.Simulation.World

def setThread (id : ThreadId) (state : ThreadState) : Sim Unit :=
  modify fun w => { w with threads := w.threads.modify id fun t => { t with state } }

/-- The supply has drawn this id. -/
def isDrawn (w : World) (id : JobId) : Bool :=
  (List.range w.ids.used).any fun i => w.ids.id i == id

/-- Records the outcome of a step; the thread is ready for the next one. -/
def record (id : ThreadId) (outcome : Outcome) : Sim Unit :=
  modify fun w => { w with
    aliases := w.aliases.note w.isDrawn outcome.jobIds
    threads := w.threads.modify id fun t =>
      { t with state := .ready, records := (outcome, w.time) :: t.records } }

/-! ## Going on with a step -/

/-- What a step that has all its verdicts tells. -/
def view (v : View) (verdicts : List Engine.Verdict) : Outcome :=
  match v, verdicts with
  | .each, vs => .verdicts vs
  | .one, v :: _ => .verdict v
  | _, .error e :: _ => .engineError e
  | .ids, .ok r :: _ => .ids (r.enqueued?.getD [])
  | .claimed, .ok r :: _ => .claimed r.claimed?
  | .ok, .ok _ :: _ => .ok
  | .renewed, .ok r :: _ => .flag r.isRenewed
  | _, [] => .done

def ofStart : Engine.StartResult → Outcome
  | .failed e => .engineError e
  | .already | .running _ _ => .ok

/-- Follows an engine's start. -/
def followStart (id : ThreadId) (engine : EngineId)
    (move : Engine × Engine.Startup.Progress) : Sim Unit := do
  setEngine engine move.1
  match move.2 with
  | .waiting point =>
    setThread id (.starting engine point (← launch (point.call move.1.options)))
  | .done result =>
    if let .running epoch kick := result then runLoop engine epoch kick
    record id (ofStart result)

/-- Follows an election. -/
def followElection (id : ThreadId) (election : Election)
    (progress : Store.Progress Election.Attempt Election.Outcome) : Sim Unit := do
  match progress with
  | .waiting point => setThread id (.electing election point (← launch (point.call election)))
  | .done (.ok result) => record id (.election result)
  | .done (.error e) => record id (.electionError e)

/-- Follows a broker's start. -/
def followBroker (id : ThreadId) (name : String) (options : Broker.Options) (engine : EngineId)
    (move : Engine × Broker.StartStep) : Sim Unit := do
  setEngine engine move.1
  match move.2 with
  | .waiting point =>
    setThread id (.enthroning name options engine point (← launch (point.call options)))
  | .register epoch kick registration =>
    runLoop engine epoch kick
    setThread id (.registering name options engine (← submit engine registration))
  | .failed e => record id (.brokerError e)

/-- A heartbeat that was asked for is over. -/
def finishLooking (id : ThreadId) (broker : BrokerId) (result : Except Broker.Error Bool) :
    Sim Unit := do
  match result with
  | .ok leads => record id (.flag leads)
  | .error e => record id (.brokerError e)
  releaseBroker broker

/-- The answer of a read or a put as an outcome. -/
def ofAnswer {a : Store.Access} (answer : Store.Answer a) : Outcome :=
  match a, answer with
  | .read, .ok o => .object o
  | .put, .ok t => .token t
  | .read, .error e => .storeError e
  | .put, .error e => .storeError e

/-- The other client has read. -/
def foreignPut (id : ThreadId) (key : String) (ms : List Mutation)
    (answer : Store.Answer .read) : Sim Unit := do
  let w ← get
  match ForeignCommit.ofAnswer key ms w.clock w.ids answer with
  | .error e => record id (.engineError e)
  | .ok commit =>
    let (stack, base) := w.stack.base commit.call
    set { w with stack, ids := commit.ids }
    match base with
    | .landed (.ok _) => record id (.results commit.results)
    | .landed (.error e) => record id (.storeError e)
    | .waiting wait pending =>
      setThread id (.foreignPutting commit.results (← setAlarm wait) pending)

def foreignRead (id : ThreadId) (key : String) (ms : List Mutation) : Sim Unit := do
  let w ← get
  let (stack, base) := w.stack.base (.read key)
  set { w with stack }
  match base with
  | .landed answer => foreignPut id key ms answer
  | .waiting wait pending => setThread id (.foreignReading key ms (← setAlarm wait) pending)

/-- Waits for one submission and shows it in a certain way. -/
def awaitOne (id : ThreadId) (v : View) (ticket : Engine.Ticket) : Sim Unit :=
  setThread id (.awaiting v [] [ticket])

/-! ## Beginning a step -/

def withEngine (id : ThreadId) (name : String) (act : EngineId → Engine → Sim Unit) :
    Sim Unit := do
  let w ← get
  match w.engineNames.lookup name with
  | none => record id (.unknown name)
  | some engine =>
    match w.stations[engine]? with
    | none => record id (.unknown name)
    | some station => act engine station.engine

def withBroker (id : ThreadId) (name : String) (act : BrokerId → Throne → Sim Unit) :
    Sim Unit := do
  let w ← get
  match w.brokerNames.lookup name with
  | none => record id (.unknown name)
  | some broker =>
    match w.thrones[broker]? with
    | none => record id (.unknown name)
    | some throne => act broker throne

def withElection (id : ThreadId) (name : String) (act : Election → Sim Unit) : Sim Unit := do
  match (← get).electionNames.lookup name with
  | none => record id (.unknown name)
  | some election => act election

/-- Submits a mutation to a named engine and awaits it. -/
def submitTo (id : ThreadId) (name : String) (v : View) (m : Mutation) : Sim Unit :=
  withEngine id name fun engine _ => do awaitOne id v (← submit engine m)

/-- The stored octets under a key, past all layers; with an object store the key is a path. -/
def peek (w : World) (key : String) : Option Bytes :=
  match w.stack.remote with
  | some (_, objects) => (objects.entry? key).map (·.data)
  | none => (w.stack.memory.entry? key).map (·.data)

/-- The document that is stored under a key, past all layers. -/
def stored (w : World) (key : String) : Outcome :=
  match w.peek key with
  | none => .document none
  | some data =>
    match Document.decode data with
    | .ok d => .document (some d)
    | .error _ => .raw data

def setMemory (f : Store.Memory.Options → Store.Memory.Options) : Sim Unit :=
  modify fun w => { w with
    stack := { w.stack with
      memory := { w.stack.memory with options := f w.stack.memory.options } } }

/-- Sets the clock and tells what it shows. -/
def setClock (id : ThreadId) (clock : Millis) : Sim Unit := do
  modify fun w => { w with clock }
  record id (.clock clock)

/-- Starts a thread for each branch. -/
def branch (id : ThreadId) (branches : List (List Step)) : Sim Unit := do
  let w ← get
  let children := (List.range branches.length).map (w.threads.size + ·)
  set { w with
    threads := branches.foldl (fun ts steps => ts.push ⟨steps, .ready, []⟩) w.threads }
  setThread id (.joining children)

/-- Begins a step. -/
def beginStep (id : ThreadId) (step : Step) : Sim Unit := do
  let w ← get
  let resolve := w.aliases.resolve
  let mutation (m : Mutation) := m.mapJob resolve
  match step with
  | .concurrently branches => branch id branches
  | .sleep ms => setThread id (.sleeping (← setAlarm ms))
  | .setClock now => setClock id now
  | .advanceClock delta => setClock id (w.clock + delta)
  | .read key => setThread id (.reading (← launch (.read key)))
  | .write key expected data => setThread id (.putting (← launch (.write key data expected)))
  | .create key data => setThread id (.putting (← launch (.create key data)))
  | .peek key => record id (.bytes (w.peek key))
  | .stored key => record id (w.stored key)
  | .counts =>
    record id (.counts w.stack.memory.reads w.stack.memory.writes w.stack.memory.creates)
  | .throttleStats => record id (.throttle (w.stack.throttle.map (·.stats)))
  | .setLatency ms =>
    setMemory fun o => { o with latency := ms }
    record id .done
  | .setFailure failure =>
    setMemory fun o => { o with failure }
    record id .done
  | .setMemory options =>
    setMemory fun _ => options
    record id .done
  | .setFaults faults =>
    set { w with
      stack := { w.stack with faults := { faults with takeover := faults.takeover.map mutation } } }
    record id .done
  | .foreign key ms => foreignRead id key (ms.map mutation)
  | .newEngine name options =>
    let engine ← newEngine options
    modify fun w => { w with engineNames := bind name engine w.engineNames }
    record id (.engineOptions options)
  | .startEngine name => withEngine id name fun engine e => followStart id engine e.start
  | .stopEngine name => withEngine id name fun engine _ => do
    stopEngine engine
    record id .done
  | .phase name => withEngine id name fun _ e => record id (.phase e.phase)
  | .cached name => withEngine id name fun _ e => record id (.document e.cachedDocument?)
  | .stats name => withEngine id name fun _ e => record id (.stats e.stats?)
  | .submit name label m => withEngine id name fun engine _ => do
    let ticket ← submit engine (mutation m)
    modify fun w => { w with labels := bind label ticket w.labels }
    record id .done
  | .await label =>
    match w.labels.lookup label with
    | none => record id .noHandle
    | some ticket =>
      set { w with labels := w.labels.filter (·.1 != label) }
      awaitOne id .one ticket
  | .batch name ms => withEngine id name fun engine _ => do
    setThread id (.awaiting .each [] (← ms.mapM fun m => submit engine (mutation m)))
  | .enqueue name specs => submitTo id name .ids (.enqueue specs)
  | .claim name worker types => submitTo id name .claimed (.claim worker types)
  | .heartbeat name job worker => submitTo id name .ok (.heartbeat (resolve job) worker)
  | .complete name job worker => submitTo id name .ok (.complete (resolve job) worker)
  | .registerBroker name address now =>
    submitTo id name .ok (.registerBroker address (now.getD w.clock))
  | .renewBroker name address now =>
    submitTo id name .renewed (.renewBroker address (now.getD w.clock))
  | .newElection name election =>
    set { w with electionNames := bind name election w.electionNames }
    record id (.address election.address)
  | .elect name now => withElection id name fun election => do
    followElection id election (.waiting (.looking (now.getD w.clock)))
  | .check name => withElection id name fun election => do
    setThread id (.checking election (← launch election.checkCall))
  | .startBroker name options =>
    let engine ← newEngine options.engine
    followBroker id name options engine
      (Engine.create options.engine, .waiting (Broker.begin w.clock))
  | .beat name => withBroker id name fun broker throne => do
    setThread id (.looking broker (← launch throne.broker.options.election.checkCall))
  | .isLeader name => withBroker id name fun _ throne => record id (.flag throne.broker.leader)
  | .stopBroker name => withBroker id name fun broker _ => do
    stopBroker broker
    record id .done
  | .awaitStopped name ms => withBroker id name fun broker _ => do
    setThread id (.watching broker (← setAlarm ms))
  | .dropBroker name =>
    forgetBroker name
    record id .done

/-! ## Stages -/

/-- Begins the next step, if there is one. -/
def beginNext (id : ThreadId) (t : Thread) : Sim Unit := do
  match t.steps with
  | [] => setThread id .finished
  | step :: steps =>
    modify fun w => { w with threads := w.threads.modify id fun t => { t with steps } }
    beginStep id step

/-- Goes on with a flight: to the next stage, or with the answer. -/
def followFlight {a : Store.Access} (id : ThreadId) (now : Nat) (flight : Flight a)
    (next : Flight a → ThreadState) (land : Store.Answer a → Sim Unit) : Sim Bool := do
  match flight with
  | .landed answer =>
    land answer
    return true
  | .waiting alarm stage =>
    if alarm.isDue now then
      setThread id (next (← flyOn stage))
      return true
    else return false

/-- One stage of a thread; says whether it may go on. -/
def stepThread (id : ThreadId) : Sim Bool := do
  let w ← get
  let some thread := w.threads[id]? | return false
  match thread.state with
  | .ready =>
    beginNext id thread
    return true
  | .finished | .joining _ => return false
  | .sleeping alarm =>
    if alarm.isDue w.time then
      record id .done
      return true
    else return false
  | .reading flight => followFlight id w.time flight .reading fun a => record id (ofAnswer a)
  | .putting flight => followFlight id w.time flight .putting fun a => record id (ofAnswer a)
  | .foreignReading key ms alarm pending =>
    if alarm.isDue w.time then
      let (stack, answer) := w.stack.land pending
      set { w with stack }
      foreignPut id key ms answer
      return true
    else return false
  | .foreignPutting results alarm pending =>
    if alarm.isDue w.time then
      let (stack, answer) := w.stack.land pending
      set { w with stack }
      match answer with
      | .ok _ => record id (.results results)
      | .error e => record id (.storeError e)
      return true
    else return false
  | .starting engine point flight =>
    followFlight id w.time flight (.starting engine point) fun answer => do
      if let some station := (← get).stations[engine]? then
        followStart id engine (station.engine.resumeStart point answer)
  | .awaiting v got [] =>
    record id (view v got.reverse)
    return true
  | .awaiting v got (ticket :: todo) =>
    match w.verdict? ticket with
    | some verdict =>
      setThread id (.awaiting v (verdict :: got) todo)
      return true
    | none => return false
  | .electing election point flight =>
    followFlight id w.time flight (.electing election point) fun answer =>
      followElection id election (election.resume point answer)
  | .checking election flight =>
    followFlight id w.time flight (.checking election) fun answer =>
      match election.leads answer with
      | .ok leads => record id (.flag leads)
      | .error e => record id (.electionError e)
  | .enthroning name options engine point flight =>
    followFlight id w.time flight (.enthroning name options engine point) fun answer => do
      if let some station := (← get).stations[engine]? then
        followBroker id name options engine
          (Broker.resumeStart options station.engine point answer)
  | .registering name options engine ticket =>
    match w.verdict? ticket with
    | some (.ok _) =>
      enthrone name options engine
      record id (.started options.address)
      return true
    | some (.error e) =>
      stopEngine engine
      record id (.brokerError (.engine e))
      return true
    | none => return false
  | .looking broker flight =>
    followFlight id w.time flight (.looking broker) fun answer => do
      let w ← get
      if let some throne := w.thrones[broker]? then
        match Broker.heartbeat throne.broker.options w.clock answer with
        | .done result => finishLooking id broker result
        | .renew renewal => setThread id (.renewing broker (← submit throne.engine renewal))
  | .renewing broker ticket =>
    match w.verdict? ticket with
    | some verdict =>
      finishLooking id broker (Broker.renewed verdict)
      return true
    | none => return false
  | .watching broker alarm =>
    let stopped := (w.thrones[broker]?).any (·.broker.stopped)
    if stopped || alarm.isDue w.time then
      record id (.flag stopped)
      releaseBroker broker
      return true
    else return false

end LeaseQueue.Simulation.World
