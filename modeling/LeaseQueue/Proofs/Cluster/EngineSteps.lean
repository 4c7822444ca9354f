import LeaseQueue.Proofs.Cluster.Halting
import LeaseQueue.Proofs.Cluster.Processes
import LeaseQueue.Proofs.Cluster.Stranded

/-!
# What becomes of engines

An engine is started by whoever can reach it, or by its broker that has won, and stopped in the same
way.  Otherwise it changes with what is submitted, and with the starts and the loops that go on:

  `c.EngineStep e act ((c.step act).engines e)`

So its phase and its epoch are changed by starting it, by stopping it and by a start that comes to
its end, and by nothing else (`LifeStep`).
-/

namespace LeaseQueue.Cluster

/-- The engine is started: by somebody who can reach it, or by its broker that has won. -/
inductive Opens (c : Cluster) (e : EngineId) : Act → Prop where
  | call (h : c.isOpen e = true) : Opens c e (.startEngine e)
  | broker {i : ProcId} {b : BrokerId} {a : Store.Access} {now : Millis}
    {attempt : Election.Attempt a} {answer : Store.Answer a} {result : Election.Result}
    (he : e = .ofBroker b)
    (hq : c.procs[i]? = some (.awaiting (.broker b (.electing now attempt)) (.landed answer)))
    (hwon : (c.seats b).options.election.resume attempt answer = .done (.ok result))
    (hleader : result.isLeader = true) : Opens c e (.proceed i)

/-- The engine is stopped: by somebody who can reach it, with its broker, by a broker that finds
itself superseded, or by one that was not registered. -/
inductive Stops (c : Cluster) (e : EngineId) : Act → Prop where
  | call (h : c.isOpen e = true) : Stops c e (.stopEngine e)
  | broker {b : BrokerId} (he : e = .ofBroker b) (h : c.Reigns b) : Stops c e (.stopBroker b)
  | superseded {b : BrokerId} {i : ProcId} (he : e = .ofBroker b) (hreigns : c.Reigns b)
    (h : c.FindsSuperseded b i) : Stops c e (.proceed i)
  | unregistered {b : BrokerId} {i : ProcId} {ticket : Engine.Ticket} {cause : Engine.Error}
    (he : e = .ofBroker b) (hq : c.procs[i]? = some (.registering b ticket))
    (hverdict : c.verdict? ticket = some (.error cause)) : Stops c e (.proceed i)

/-- What has become of an engine. -/
inductive EngineStep (c : Cluster) (e : EngineId) (act : Act) : Engine → Prop where
  | stays : EngineStep c e act (c.engines e)
  | submits (p : Engine.Pending) : EngineStep c e act ((c.engines e).submit p).1
  | opens (h : c.Opens e act) : EngineStep c e act (c.engines e).start.1
  | stops {engine : Engine} {settled : List Engine.Settlement} (h : c.Stops e act)
    (hstop : (c.engines e).stop? = some (engine, settled)) : EngineStep c e act engine
  | starts {i : ProcId} {a : Store.Access} {point : Engine.Startup a} {answer : Store.Answer a}
    (hact : act = .proceed i) (h : c.StartAnswered e i point answer) :
    EngineStep c e act ((c.engines e).resumeStart point answer).1
  /-- A broker's start of its engine that made it submits the registration at once. -/
  | registers {i : ProcId} {a : Store.Access} {point : Engine.Startup a} {answer : Store.Answer a}
    (hact : act = .proceed i) (h : c.StartAnswered e i point answer) (p : Engine.Pending) :
    EngineStep c e act (((c.engines e).resumeStart point answer).1.submit p).1
  | drains {i : ProcId} {epoch : Nat} (hact : act = .proceed i)
    (hq : c.procs[i]? = some (.loop e epoch .givingWay)) :
    EngineStep c e act ((c.engines e).drain epoch c.clock c.ids).engine
  | commits {i : ProcId} {epoch : Nat} {a : Store.Access} {point : Engine.Commit a}
    {answer : Store.Answer a} (hact : act = .proceed i)
    (hq : c.procs[i]? = some (.awaiting (.commit e epoch point) (.landed answer))) :
    EngineStep c e act ((c.engines e).resumeCommit epoch c.clock c.ids point answer).engine

/-- What an act makes of the phase and the epoch of an engine. -/
inductive LifeStep (c : Cluster) (e : EngineId) (act : Act) (engine : Engine) : Prop where
  | stays (hphase : engine.phase = (c.engines e).phase) (hepoch : engine.epoch = (c.engines e).epoch)
  | opens (h : c.Opens e act) (hold : (c.engines e).phase = .stopped)
    (hphase : engine.phase = .starting) (hepoch : engine.epoch = (c.engines e).epoch + 1)
  | stops (h : c.Stops e act) (hphase : engine.phase = .stopped)
    (hepoch : engine.epoch = (c.engines e).epoch + 1)
  | starts {i : ProcId} {a : Store.Access} {point : Engine.Startup a} {answer : Store.Answer a}
    (hact : act = .proceed i) (h : c.StartAnswered e i point answer)
    (hphase : engine.phase = ((c.engines e).resumeStart point answer).1.phase)
    (hepoch : engine.epoch = (c.engines e).epoch)

/-- A call that starts the engine comes back, at once or when the store has answered. -/
inductive StartReturns (c : Cluster) (e : EngineId) : Act → Engine.StartResult → Prop where
  | atOnce {act : Act} {result : Engine.StartResult} (h : c.Opens e act)
    (hdone : (c.engines e).start.2 = .done result) : StartReturns c e act result
  | answered {i : ProcId} {a : Store.Access} {point : Engine.Startup a} {answer : Store.Answer a}
    {result : Engine.StartResult} (h : c.StartAnswered e i point answer)
    (hdone : ((c.engines e).resumeStart point answer).2 = .done result) :
    StartReturns c e (.proceed i) result

variable {c : Cluster} {d e : EngineId} {b : BrokerId} {i : ProcId} {act : Act}

/-! ## Parts of a step -/

theorem engines_submit_self (m : Mutation) :
    (c.submit e m).engines e = ((c.engines e).submit ⟨c.tickets, m⟩).1 := by
  by_cases hphase : (c.engines e).phase = .stopped
  · simp only [submit, Engine.submit, if_pos hphase]
    rfl
  · simp only [submit, Engine.submit, if_neg hphase]
    exact engines_setEngine_self ..

theorem engines_submit_of_ne (h : e ≠ d) (m : Mutation) :
    (c.submit d m).engines e = c.engines e := by
  rw [submit]
  split
  · rfl
  · exact engines_setEngine_of_ne _ h _

theorem engines_stopEngine_of_ne (h : e ≠ d) : (c.stopEngine d).engines e = c.engines e := by
  unfold stopEngine
  split
  · rfl
  · exact engines_setEngine_of_ne _ h _

theorem engines_followStart_of_ne (h : e ≠ d) (move : Engine × Engine.Startup.Progress) :
    (c.followStart i d move).engines e = c.engines e := by
  obtain ⟨engine, result | point⟩ := move
  · cases result <;> exact engines_setEngine_of_ne c h _
  · exact engines_setEngine_of_ne c h _

theorem engines_followLoop (epoch : Nat) (next : Engine.LoopStep) :
    (c.followLoop i d epoch next).engines = c.engines := by
  cases next <;> rfl

theorem engines_followMove_self (epoch : Nat) (move : Engine.LoopMove) :
    (c.followMove i e epoch move).engines e = move.engine := by
  rw [followMove, engines_followLoop]
  exact engines_setEngine_self ..

theorem engines_followMove_of_ne (h : e ≠ d) (epoch : Nat) (move : Engine.LoopMove) :
    (c.followMove i d epoch move).engines e = c.engines e := by
  rw [followMove, engines_followLoop]
  exact engines_setEngine_of_ne c h _

theorem engines_followBroker_of_ne (h : e ≠ .ofBroker b) (move : Engine × Broker.StartStep) :
    (c.followBroker i b move).engines e = c.engines e := by
  have hset : (c.setEngine (.ofBroker b) move.1).engines e = c.engines e :=
    engines_setEngine_of_ne c h _
  obtain ⟨engine, point | ⟨epoch, kick, m⟩ | cause⟩ := move
  · exact hset
  · exact (engines_submit_of_ne h m).trans hset
  · exact hset

/-- What a broker that goes on makes of its engine. -/
theorem engines_followBroker_self (move : Engine × Broker.StartStep) :
    (c.followBroker i b move).engines (.ofBroker b) = move.1 ∨
      ∃ epoch kick m p, move.2 = .register epoch kick m ∧
        (c.followBroker i b move).engines (.ofBroker b) = (move.1.submit p).1 := by
  have hset : (c.setEngine (.ofBroker b) move.1).engines (.ofBroker b) = move.1 :=
    engines_setEngine_self ..
  obtain ⟨engine, point | ⟨epoch, kick, m⟩ | cause⟩ := move
  · exact .inl hset
  · refine .inr ⟨epoch, kick, m, ⟨c.tickets, m⟩, rfl, ?_⟩
    have hsubmit := engines_submit_self (e := .ofBroker b)
      (c := (c.setEngine (.ofBroker b) engine).spawn (.loop (.ofBroker b) epoch .entering)) m
    have hspawned : ((c.setEngine (.ofBroker b) engine).spawn
        (.loop (.ofBroker b) epoch .entering)).engines (.ofBroker b) = engine := hset
    rw [hspawned] at hsubmit
    exact hsubmit
  · exact .inl hset

/-! ## Stopping -/

theorem engineStep_stopEngine {c' : Cluster} (h : c.Stops e act)
    (hengines : c'.engines = c.engines) :
    c.EngineStep e act ((c'.stopEngine e).engines e) := by
  unfold stopEngine
  rw [hengines]
  split
  · rw [hengines]
    exact .stays
  next engine settled hstop =>
    have hset : ((c'.setEngine e engine).settle e settled).engines e = engine :=
      engines_setEngine_self ..
    rw [hset]
    exact .stops h hstop

theorem engineStep_stopBroker {c' : Cluster} (hengines : c'.engines = c.engines)
    (hseats : c'.seats = c.seats) (h : c.Reigns b → c.Stops (.ofBroker b) act) :
    c.EngineStep e act ((c'.stopBroker b).engines e) := by
  unfold stopBroker
  rw [hseats]
  split
  next broker hreign =>
    have hreigned : (c'.setReign b (.begun broker.stop)).engines = c.engines := hengines
    by_cases he : e = .ofBroker b
    · subst he
      exact engineStep_stopEngine (h ⟨broker, hreign⟩) hreigned
    · rw [engines_stopEngine_of_ne he, hreigned]
      exact .stays
  · rw [hengines]
    exact .stays

theorem engineStep_finishBeat {own : Bool} {result : Except Broker.Error Bool}
    (h : own = true → result = .ok false → c.FindsSuperseded b i) :
    c.EngineStep e (.proceed i) ((c.finishBeat i b own result).engines e) := by
  unfold finishBeat
  dsimp only
  split
  · exact engineStep_stopBroker (b := b) rfl rfl fun hreigns =>
      .superseded rfl hreigns (h rfl rfl)
  · exact .stays

/-! ## Going on -/

theorem engineStep_openEngine {move : Engine × Engine.Startup.Progress} {o : Broker.Options}
    {now : Millis} {c' : Cluster} (hengines : c'.engines = c.engines)
    (h : c.EngineStep (.ofBroker b) act move.1)
    (hsubmit : ∀ epoch kick p, move.2 = .done (.running epoch kick) →
      c.EngineStep (.ofBroker b) act (move.1.submit p).1) :
    c.EngineStep e act ((c'.followBroker i b (Broker.openEngine o now move)).engines e) := by
  by_cases he : e = .ofBroker b
  · subst he
    rcases engines_followBroker_self (c := c') (i := i) (b := b) (Broker.openEngine o now move) with
      heq | ⟨epoch, kick, m, p, hregister, heq⟩
    · rw [heq, Broker.openEngine_engine]
      exact h
    · rw [heq, Broker.openEngine_engine]
      obtain ⟨engine, result | point⟩ := move
      · cases result with
        | running epoch kick => exact hsubmit epoch kick p rfl
        | already | failed => cases hregister
      · cases hregister
  · rw [engines_followBroker_of_ne he, hengines]
    exact .stays

theorem engineStep_resumeBroker {a : Store.Access} {point : Broker.Startup a}
    {answer : Store.Answer a}
    (hq : c.procs[i]? = some (.awaiting (.broker b point) (.landed answer))) :
    c.EngineStep e (.proceed i) ((c.resume i (.broker b point) answer).engines e) := by
  rw [resume]
  have hengines : (c.crown b (crown? (c.seats b).options point answer)).engines = c.engines :=
    engines_crown _ _ _
  generalize c.crown b (crown? (c.seats b).options point answer) = crowned at hengines
  cases point with
  | opening now point =>
    have hanswered : c.StartAnswered (.ofBroker b) i point answer := .inr ⟨b, now, rfl, hq⟩
    exact engineStep_openEngine hengines (.starts rfl hanswered) fun _ _ p _ =>
      .registers rfl hanswered p
  | electing now attempt =>
    have hsame (step : Broker.StartStep) (hstep : ∀ epoch kick m, step ≠ .register epoch kick m) :
        c.EngineStep e (.proceed i)
          ((crowned.followBroker i b (c.engines (.ofBroker b), step)).engines e) := by
      by_cases he : e = .ofBroker b
      · subst he
        rcases engines_followBroker_self (c := crowned) (i := i) (b := b)
          (c.engines (.ofBroker b), step) with heq | ⟨epoch, kick, m, -, hregister, -⟩
        · rw [heq]
          exact .stays
        · exact absurd hregister (hstep epoch kick m)
      · rw [engines_followBroker_of_ne he, hengines]
        exact .stays
    have hopen {result : Election.Result} (hleader : result.isLeader = true)
        (hwon : (c.seats b).options.election.resume attempt answer = .done (.ok result)) :
        c.EngineStep e (.proceed i) ((crowned.followBroker i b
          (Broker.openEngine (c.seats b).options now (c.engines (.ofBroker b)).start)).engines e) :=
      engineStep_openEngine hengines (.opens (.broker rfl hq hwon hleader)) fun epoch kick _ hrun =>
        absurd hrun (start_ne_running _ epoch kick)
    rw [Broker.resumeStart]
    split
    · exact hsame _ fun epoch kick m hregister => by cases hregister
    · exact hsame _ fun epoch kick m hregister => by cases hregister
    · exact hsame _ fun epoch kick m hregister => by cases hregister
    · exact hsame _ fun epoch kick m hregister => by cases hregister
    next hwon => exact hopen rfl hwon
    next hwon => exact hopen rfl hwon

theorem engineStep_resume {a : Store.Access} {caller : Caller a} {answer : Store.Answer a}
    (hq : c.procs[i]? = some (.awaiting caller (.landed answer))) :
    c.EngineStep e (.proceed i) ((c.resume i caller answer).engines e) := by
  cases caller with
  | start d point =>
    by_cases hd : e = d
    · subst hd
      rw [resume, engines_followStart]
      exact .starts rfl (.inl hq)
    · rw [resume, engines_followStart_of_ne hd]
      exact .stays
  | commit d epoch point =>
    by_cases hd : e = d
    · subst hd
      rw [resume, engines_followMove_self]
      exact .commits rfl hq
    · rw [resume, engines_followMove_of_ne hd]
      exact .stays
  | election election attempt =>
    rw [resume]
    cases election.resume attempt answer <;> exact .stays
  | broker b point => exact engineStep_resumeBroker hq
  | beat b own =>
    rw [resume]
    cases hbeat : Broker.heartbeat (c.seats b).options c.clock answer with
    | done result =>
      refine engineStep_finishBeat fun hown hresult => .inl ⟨answer, ?_, ?_⟩
      · rw [← hown]
        exact hq
      · rw [hbeat, hresult]
    | renew renewal =>
      by_cases he : e = .ofBroker b
      · subst he
        have hsubmit : (c.followBeat i b own (.renew renewal)).engines (.ofBroker b) = _ :=
          engines_submit_self renewal
        rw [hsubmit]
        exact .submits _
      · have hsubmit : (c.followBeat i b own (.renew renewal)).engines e = c.engines e :=
          engines_submit_of_ne he renewal
        rw [hsubmit]
        exact .stays
  | client call => exact .stays

theorem engineStep_stepLoop {epoch : Nat} {pause : Pause}
    (hq : c.procs[i]? = some (.loop d epoch pause)) :
    c.EngineStep e (.proceed i) ((c.stepLoop i d epoch pause).engines e) := by
  have hother {c' : Cluster} (hengines : c'.engines = c.engines) (hd : e ≠ d)
      (move : Engine.LoopMove) :
      c.EngineStep e (.proceed i) ((c'.followMove i d epoch move).engines e) := by
    rw [engines_followMove_of_ne hd, hengines]
    exact .stays
  cases pause with
  | entering =>
    rw [stepLoop, engines_followLoop]
    exact .stays
  | resting =>
    rw [stepLoop, engines_followLoop]
    exact .stays
  | givingWay =>
    by_cases hd : e = d
    · subst hd
      rw [stepLoop, engines_followMove_self]
      exact .drains rfl hq
    · exact hother (engines_noteBatch c d) hd _
  | backingOff pass =>
    by_cases hd : e = d
    · subst hd
      rw [stepLoop, engines_followMove_self]
      obtain ⟨hengine, -⟩ := (c.engines e).attempt_move epoch pass c.clock c.ids
      rw [hengine]
      exact .stays
    · exact hother rfl hd _

theorem engineStep_proceed (i : ProcId) : c.EngineStep e (.proceed i) ((c.proceed i).engines e) := by
  unfold proceed
  split
  next hq => exact engineStep_resume hq
  next hq => exact engineStep_stepLoop hq
  next b ticket hq =>
    split
    next verdict hverdict =>
      cases verdict with
      | ok result => exact .stays
      | error cause =>
        by_cases he : e = .ofBroker b
        · subst he
          exact engineStep_stopEngine (.unregistered rfl hq hverdict) rfl
        · have hstop : (c.enthrone i b (.error cause)).engines e = c.engines e :=
            engines_stopEngine_of_ne he
          rw [hstop]
          exact .stays
    · exact .stays
  next b own ticket hq =>
    split
    next verdict hverdict =>
      refine engineStep_finishBeat fun hown hresult => .inr ⟨ticket, verdict, ?_, hverdict, hresult⟩
      rw [← hown]
      exact hq
    · exact .stays
  · exact .stays

/-- **What an act makes of an engine.** -/
theorem engineStep (act : Act) : c.EngineStep e act ((c.step act).engines e) := by
  cases act with
  | setClock | setMemory => exact .stays
  | submit d m =>
    rw [step]
    split
    · by_cases hd : e = d
      · subst hd
        rw [engines_submit_self]
        exact .submits _
      · rw [engines_submit_of_ne hd]
        exact .stays
    · exact .stays
  | startEngine d =>
    rw [step]
    split
    next hopen =>
      by_cases hd : e = d
      · subst hd
        rw [startEngine, engines_followStart]
        exact .opens (.call hopen)
      · rw [startEngine, engines_followStart_of_ne hd]
        exact .stays
    · exact .stays
  | stopEngine d =>
    rw [step]
    split
    next hopen =>
      by_cases hd : e = d
      · subst hd
        exact engineStep_stopEngine (.call hopen) rfl
      · rw [engines_stopEngine_of_ne hd]
        exact .stays
    · exact .stays
  | elect | call => exact .stays
  | startBroker b =>
    rw [step, startBroker]
    split <;> exact .stays
  | beat b own =>
    rw [step, beat]
    split <;> exact .stays
  | stopBroker b => exact engineStep_stopBroker rfl rfl (.broker rfl)
  | land i =>
    rcases land_cases c i with heq | ⟨a, caller, failure, -, heq⟩
    · rw [step, heq]
      exact .stays
    · rw [step, heq]
      exact .stays
  | proceed i => exact engineStep_proceed i

/-! ## Phases and epochs -/

theorem submit_life (engine : Engine) (p : Engine.Pending) :
    (engine.submit p).1.phase = engine.phase ∧ (engine.submit p).1.epoch = engine.epoch := by
  unfold Engine.submit
  split <;> exact ⟨rfl, rfl⟩

theorem drain_life (engine : Engine) (epoch : Nat) (now : Millis) (ids : IdSupply) :
    (engine.drain epoch now ids).engine.phase = engine.phase ∧
      (engine.drain epoch now ids).engine.epoch = engine.epoch := by
  by_cases hbuffer : engine.buffer = []
  · rw [Engine.drain_of_nil hbuffer]
    exact ⟨rfl, rfl⟩
  · obtain ⟨hengine, -⟩ :=
      Engine.attempt_move { engine with buffer := [] } epoch ⟨engine.buffer, 0⟩ now ids
    rw [Engine.drain_of_ne_nil hbuffer, hengine]
    exact ⟨rfl, rfl⟩

theorem epoch_resumeStart (engine : Engine) {a : Store.Access} (point : Engine.Startup a)
    (answer : Store.Answer a) : (engine.resumeStart point answer).1.epoch = engine.epoch := by
  have hmove := engine.resumeStart_move point answer
  generalize engine.resumeStart point answer = move at hmove
  cases hmove with
  | waiting _ _ hcontrol => exact congrArg Engine.Control.epoch hcontrol
  | running _ _ hcontrol => exact congrArg Engine.Control.epoch hcontrol
  | failed _ hcontrol => exact congrArg Engine.Control.epoch hcontrol

/-- **What changes the phase and the epoch of an engine.** -/
theorem lifeStep (act : Act) : c.LifeStep e act ((c.step act).engines e) := by
  have hstep := engineStep (c := c) (e := e) act
  generalize (c.step act).engines e = engine at hstep
  cases hstep with
  | stays => exact .stays rfl rfl
  | submits p => exact .stays (submit_life _ p).1 (submit_life _ p).2
  | opens hopens =>
    unfold Engine.start
    split
    next hstopped => exact .opens hopens hstopped rfl rfl
    · exact .stays rfl rfl
  | stops hstops hstop =>
    simp only [Engine.stop?] at hstop
    split at hstop
    · cases hstop
    · cases hstop
      exact .stops hstops rfl rfl
  | starts hact hanswered => exact .starts hact hanswered rfl (epoch_resumeStart _ _ _)
  | registers hact hanswered p =>
    refine .starts hact hanswered (submit_life _ p).1 ?_
    exact (submit_life _ p).2.trans (epoch_resumeStart _ _ _)
  | drains hact hq => exact .stays (drain_life _ _ _ _).1 (drain_life _ _ _ _).2
  | @commits i epoch a point answer hact hq =>
    obtain ⟨hcontrol, -⟩ :=
      (c.engines e).resumeCommit_move epoch c.clock c.ids point answer
    exact .stays (congrArg Engine.Control.phase hcontrol) (congrArg Engine.Control.epoch hcontrol)

theorem epoch_le_step (act : Act) : (c.engines e).epoch ≤ ((c.step act).engines e).epoch := by
  cases lifeStep (c := c) (e := e) act with
  | stays _ hepoch => exact Nat.le_of_eq hepoch.symm
  | opens _ _ _ hepoch => exact hepoch ▸ Nat.le_succ _
  | stops _ _ hepoch => exact hepoch ▸ Nat.le_succ _
  | starts _ _ _ hepoch => exact Nat.le_of_eq hepoch.symm

theorem epoch_le_run (acts : List Act) : (c.engines e).epoch ≤ ((c.run acts).engines e).epoch := by
  induction acts generalizing c with
  | nil => exact Nat.le_refl _
  | cons act acts ih => exact Nat.le_trans (epoch_le_step act) ih

theorem Opens.engines (h : c.Opens e act) : (c.step act).engines e = (c.engines e).start.1 := by
  cases h with
  | call hopen =>
    rw [step, if_pos hopen]
    exact engines_followStart _
  | @broker i b a now attempt answer result he hq hwon hleader =>
    subst he
    have hresume : Broker.resumeStart (c.seats b).options (c.engines (.ofBroker b))
        (.electing now attempt) answer =
          Broker.openEngine (c.seats b).options now (c.engines (.ofBroker b)).start := by
      rw [Broker.resumeStart, hwon]
      cases result with
      | elected | alreadyLeader => rfl
      | otherLeader | conflict => cases hleader
    rw [step, proceed, hq]
    dsimp only
    rw [resume, hresume]
    rcases engines_followBroker_self (i := i) (b := b)
        (c := c.crown b (crown? (c.seats b).options (.electing now attempt) answer))
        (Broker.openEngine (c.seats b).options now (c.engines (.ofBroker b)).start) with
      heq | ⟨epoch, kick, m, -, hregister, -⟩
    · exact heq.trans (Broker.openEngine_engine _ _ _)
    · have hrunning := start_ne_running (c.engines (.ofBroker b))
      generalize (c.engines (.ofBroker b)).start = move at hregister hrunning
      obtain ⟨engine, result | point⟩ := move
      · cases result with
        | running epoch kick => exact absurd rfl (hrunning epoch kick)
        | already | failed => cases hregister
      · cases hregister

end LeaseQueue.Cluster
