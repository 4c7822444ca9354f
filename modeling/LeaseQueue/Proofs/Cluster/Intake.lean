import LeaseQueue.Proofs.Cluster.EngineSteps

/-!
# What an engine takes in

What an engine accepts waits in its buffer until a loop drains it as one batch, and a loop calls the
store for a batch.  Nothing else touches any of that, but stopping the engine:

  `c.IntakeStep e act ((c.step act).intake e)`

So as long as the engine is neither stopped nor drained, what is in the buffer is what was accepted,
in that order.
-/

namespace LeaseQueue

open Engine (Pending)

/-- What a loop calls the store for. -/
def Engine.LoopStep.calls : LoopStep → List (Sigma Commit)
  | .commit point => [⟨_, point⟩]
  | .rest | .giveWay | .backOff _ _ | .leave => []

namespace Cluster

def Event.passCall? (e : EngineId) : Event → Option (Sigma Engine.Commit)
  | .called (.commit d _ point) _ => if d = e then some ⟨_, point⟩ else none
  | _ => none

/-- The calls of the passes of an engine, the latest first. -/
def passCalls (c : Cluster) (e : EngineId) : List (Sigma Engine.Commit) :=
  c.log.filterMap (Event.passCall? e)

structure Intake where
  accepted : List Pending
  drained : List (List Pending)
  buffer : List Pending
  /-- The calls of its passes, the latest first. -/
  calls : List (Sigma Engine.Commit)

def intake (c : Cluster) (e : EngineId) : Intake where
  accepted := c.accepted e
  drained := c.drained e
  buffer := (c.engines e).buffer
  calls := c.passCalls e

/-- What an act makes of the intake of an engine. -/
inductive IntakeStep (c : Cluster) (e : EngineId) (act : Act) : Intake → Prop where
  | stays : IntakeStep c e act (c.intake e)
  | takes (p : Pending) : IntakeStep c e act { c.intake e with
      accepted := p :: c.accepted e
      buffer := (c.engines e).buffer ++ [p] }
  | rejects (h : c.Stops e act) : IntakeStep c e act { c.intake e with buffer := [] }
  | drains {i : ProcId} {epoch : Nat} (hact : act = .proceed i)
    (hq : c.procs[i]? = some (.loop e epoch .givingWay)) (hbuffer : (c.engines e).buffer ≠ []) :
    IntakeStep c e act { c.intake e with
      drained := (c.engines e).buffer :: c.drained e
      buffer := []
      calls := ((c.engines e).drain epoch c.clock c.ids).next.calls ++ c.passCalls e }
  | retries {i : ProcId} {epoch : Nat} {pass : Engine.Pass} (hact : act = .proceed i)
    (hq : c.procs[i]? = some (.loop e epoch (.backingOff pass))) :
    IntakeStep c e act { c.intake e with
      calls := ((c.engines e).attempt pass c.clock c.ids).next.calls ++ c.passCalls e }
  | commits {i : ProcId} {epoch : Nat} {a : Store.Access} {point : Engine.Commit a}
    {answer : Store.Answer a} (hact : act = .proceed i)
    (hq : c.procs[i]? = some (.awaiting (.commit e epoch point) (.landed answer))) :
    IntakeStep c e act { c.intake e with
      calls := ((c.engines e).resumeCommit epoch c.clock c.ids point answer).next.calls ++
        c.passCalls e }

variable {c c' : Cluster} {acts : List Act} {act : Act} {i : ProcId} {d e : EngineId} {b : BrokerId}

/-! ## Parts of a step -/

theorem intake_record (event : Event) (haccepted : event.taken? e = none)
    (hdrained : event.drained? e = none) (hcall : event.passCall? e = none) :
    (c.record event).intake e = c.intake e := by
  simp only [intake, accepted, drained, passCalls, record, List.filterMap_cons_none haccepted,
    List.filterMap_cons_none hdrained, List.filterMap_cons_none hcall]

theorem intake_setEngine (engine : Engine) (h : d = e → engine.buffer = (c.engines e).buffer) :
    (c.setEngine d engine).intake e = c.intake e := by
  have hbuffer : ((c.setEngine d engine).engines e).buffer = (c.engines e).buffer := by
    by_cases hd : d = e
    · subst hd
      rw [engines_setEngine_self, h rfl]
    · rw [engines_setEngine_of_ne c (Ne.symm hd)]
  rw [intake, hbuffer]
  rfl

theorem intake_setEngine_self (engine : Engine) :
    (c.setEngine e engine).intake e = { c.intake e with buffer := engine.buffer } := by
  rw [intake, engines_setEngine_self]
  rfl

theorem intake_settle (settled : List Engine.Settlement) :
    (c.settle d settled).intake e = c.intake e := by
  have hnone {β : Type} {f : Event → Option β} (hf : ∀ s, f (.settled d s) = none) :
      ((settled.map (Event.settled d)).reverse ++ c.log).filterMap f = c.log.filterMap f := by
    have hnil : (settled.map (Event.settled d)).reverse.filterMap f = [] := by
      rw [List.filterMap_eq_nil_iff]
      simp [hf]
    rw [List.filterMap_append, hnil, List.nil_append]
  have haccepted := hnone (f := Event.taken? e) fun _ => rfl
  have hdrained := hnone (f := Event.drained? e) fun _ => rfl
  have hcalls := hnone (f := Event.passCall? e) fun _ => rfl
  simp only [intake, accepted, drained, passCalls, settle, haccepted, hdrained, hcalls]

theorem intake_launch {a : Store.Access} (caller : Caller a) (hother : caller.IsOther e) :
    (c.launch i caller).intake e = c.intake e := by
  refine intake_record (c := (_ : Cluster).setProc i _) _ rfl rfl ?_
  cases caller with
  | commit d epoch point => exact if_neg hother
  | start | election | broker | beat | client => rfl

theorem intake_begin {a : Store.Access} (caller : Caller a) (hother : caller.IsOther e) :
    (c.begin caller).intake e = c.intake e :=
  intake_launch (c := c.spawn .ended) caller hother

theorem intake_followStart {move : Engine × Engine.Startup.Progress}
    (hkeeps : Engine.Keeps (c.engines d) move.1) :
    (c.followStart i d move).intake e = c.intake e := by
  have hset := intake_setEngine move.1 fun hd : d = e => hd ▸ hkeeps.buffer
  obtain ⟨engine, result | point⟩ := move
  · have hnoted : (((c.setEngine d engine).setProc i .ended).record (.started d result)).intake e =
        c.intake e := (intake_record (.started d result) rfl rfl rfl).trans hset
    cases result <;> exact hnoted
  · exact (intake_launch (.start d point) trivial).trans hset

theorem intake_followElection {election : Election}
    {progress : Store.Progress Election.Attempt Election.Outcome} :
    (c.followElection i election progress).intake e = c.intake e := by
  cases progress with
  | done outcome => exact intake_record (c := c.setProc i .ended) _ rfl rfl rfl
  | waiting attempt => exact intake_launch (.election election attempt) trivial

theorem intake_crown {document : Option Document} :
    (c.crown b document).intake e = c.intake e := by
  cases document with
  | none => rfl
  | some document => exact intake_record _ rfl rfl rfl

/-! ## Loops -/

theorem intake_followLoop (epoch : Nat) (next : Engine.LoopStep) :
    (c.followLoop i e epoch next).intake e =
      { c.intake e with calls := next.calls ++ c.passCalls e } := by
  cases next with
  | commit point =>
    have hcall : Event.passCall? e (.called (.commit e epoch point)
        (c.callOf (.commit e epoch point))) = some ⟨_, point⟩ := if_pos rfl
    simp only [followLoop, launch, record, setProc, intake, accepted, drained, passCalls,
      List.filterMap_cons, hcall]
    rfl
  | rest | giveWay | backOff | leave => rfl

theorem intake_followLoop_other (hd : d ≠ e) (epoch : Nat) (next : Engine.LoopStep) :
    (c.followLoop i d epoch next).intake e = c.intake e := by
  cases next with
  | commit point => exact intake_launch (.commit d epoch point) hd
  | rest | giveWay | backOff | leave => rfl

theorem intake_followMove (epoch : Nat) (move : Engine.LoopMove) :
    (c.followMove i e epoch move).intake e = { c.intake e with
      buffer := move.engine.buffer
      calls := move.next.calls ++ c.passCalls e } := by
  have hset := intake_setEngine_self (c := c) (e := e) move.engine
  have hsettled : (((c.setEngine e move.engine).setIds move.ids).settle e move.settled).intake e =
      { c.intake e with buffer := move.engine.buffer } := (intake_settle move.settled).trans hset
  have hcalls : (((c.setEngine e move.engine).setIds move.ids).settle e move.settled).passCalls e =
      c.passCalls e := congrArg Intake.calls hsettled
  rw [followMove, intake_followLoop, hsettled, hcalls]

theorem intake_followMove_other (hd : d ≠ e) (epoch : Nat) (move : Engine.LoopMove) :
    (c.followMove i d epoch move).intake e = c.intake e := by
  rw [followMove, intake_followLoop_other hd, intake_settle]
  exact intake_setEngine (c := c) move.engine fun heq => absurd heq hd

theorem intake_noteBatch_other (hd : d ≠ e) : (c.noteBatch d).intake e = c.intake e := by
  unfold noteBatch
  split
  · rfl
  · exact intake_record _ rfl (if_neg hd) rfl

theorem intakeStep_drain {epoch : Nat} (hq : c.procs[i]? = some (.loop e epoch .givingWay)) :
    c.IntakeStep e (.proceed i) ((c.stepLoop i e epoch .givingWay).intake e) := by
  rw [stepLoop, intake_followMove]
  by_cases hbuffer : (c.engines e).buffer = []
  · have hdrain := Engine.drain_nil hbuffer epoch c.clock c.ids
    have hnext : ((c.engines e).drain epoch c.clock c.ids).next =
        (c.engines e).enterLoop epoch := by
      rw [Engine.drain_of_nil hbuffer]
    have hcalls : ((c.engines e).enterLoop epoch).calls = [] := by
      unfold Engine.enterLoop
      split <;> rfl
    rw [noteBatch_of_nil hbuffer, hdrain.keeps.buffer, hnext, hcalls]
    exact .stays
  · have hmove := Engine.drain_goesOn hbuffer epoch c.clock c.ids
    have hnoted : (c.noteBatch e).intake e =
        { c.intake e with drained := (c.engines e).buffer :: c.drained e } := by
      rw [noteBatch_of_ne_nil hbuffer]
      simp [intake, accepted, drained, passCalls, record, List.filterMap_cons, Event.taken?,
        Event.drained?, Event.passCall?]
    have hcalls : (c.noteBatch e).passCalls e = c.passCalls e := congrArg Intake.calls hnoted
    rw [hnoted, hmove.keeps.buffer, hcalls]
    exact .drains rfl hq hbuffer

/-! ## Submitting and stopping -/

theorem intake_submit_other (m : Mutation) (hd : d ≠ e) : (c.submit d m).intake e = c.intake e := by
  rw [submit]
  split
  · exact intake_record _ rfl rfl rfl
  · rw [intake_record (.accepted d _) (if_neg hd) rfl rfl]
    exact intake_setEngine _ fun heq => absurd heq hd

theorem intakeStep_submit (c' : Cluster) (hintake : c'.intake e = c.intake e) (m : Mutation) :
    c.IntakeStep e act ((c'.submit d m).intake e) := by
  by_cases hd : d = e
  · subst hd
    by_cases hphase : (c'.engines d).phase = .stopped
    · have hsame : (c'.submit d m).intake d = c.intake d := by
        simp only [submit, Engine.submit, if_pos hphase]
        exact (intake_record _ rfl rfl rfl).trans hintake
      exact hsame ▸ .stays
    · have htaken : (c'.submit d m).intake d = { c'.intake d with
          accepted := ⟨c'.tickets, m⟩ :: (c'.intake d).accepted
          buffer := (c'.intake d).buffer ++ [⟨c'.tickets, m⟩] } := by
        simp only [submit, Engine.submit, if_neg hphase]
        simp [intake, accepted, drained, passCalls, record, setEngine, List.filterMap_cons,
          Event.taken?, Event.drained?, Event.passCall?]
      rw [htaken, hintake]
      exact .takes _
  · rw [intake_submit_other m hd, hintake]
    exact .stays

theorem intake_stopEngine_other (hd : d ≠ e) : (c.stopEngine d).intake e = c.intake e := by
  unfold stopEngine
  split
  · rfl
  · exact (intake_settle _).trans (intake_setEngine _ fun heq => absurd heq hd)

theorem intakeStep_stopEngine (c' : Cluster) (hintake : c'.intake e = c.intake e)
    (h : d = e → c.Stops e act) : c.IntakeStep e act ((c'.stopEngine d).intake e) := by
  by_cases hd : d = e
  · subst hd
    unfold stopEngine
    split
    · exact hintake ▸ .stays
    next engine settled hstop =>
      rw [intake_settle, intake_setEngine_self, hintake]
      simp only [Engine.stop?] at hstop
      split at hstop <;> cases hstop
      exact .rejects (h rfl)
  · rw [intake_stopEngine_other hd, hintake]
    exact .stays

theorem intakeStep_stopBroker (hintake : c'.intake e = c.intake e) (hseats : c'.seats = c.seats)
    (h : c.Reigns b → .ofBroker b = e → c.Stops e act) :
    c.IntakeStep e act ((c'.stopBroker b).intake e) := by
  unfold stopBroker
  rw [hseats]
  split
  next broker hreign =>
    exact intakeStep_stopEngine (c'.setReign b (.begun broker.stop)) hintake
      (h ⟨broker, hreign⟩)
  · exact hintake ▸ .stays

theorem intakeStep_finishBeat {own : Bool} {result : Except Broker.Error Bool}
    (h : own = true → result = .ok false → c.FindsSuperseded b i) :
    c.IntakeStep e (.proceed i) ((c.finishBeat i b own result).intake e) := by
  have hnoted : ((c.setProc i .ended).record (.beaten b result)).intake e = c.intake e :=
    intake_record _ rfl rfl rfl
  unfold finishBeat
  dsimp only
  split
  · refine intakeStep_stopBroker hnoted rfl fun hreigns he => ?_
    exact .superseded he.symm hreigns (h rfl rfl)
  · exact hnoted ▸ .stays

/-! ## Every step -/

theorem intakeStep_followBroker {move : Engine × Broker.StartStep}
    (hintake : c'.intake e = c.intake e)
    (hkeeps : Engine.Keeps (c'.engines (.ofBroker b)) move.1) :
    c.IntakeStep e act ((c'.followBroker i b move).intake e) := by
  have hset : (c'.setEngine (.ofBroker b) move.1).intake e = c.intake e :=
    (intake_setEngine move.1 fun hd => hd ▸ hkeeps.buffer).trans hintake
  obtain ⟨engine, point | ⟨epoch, kick, registration⟩ | cause⟩ := move
  · have hlaunched := (intake_launch (i := i) (.broker b point) trivial).trans hset
    exact hlaunched ▸ .stays
  · exact intakeStep_submit
      ((c'.setEngine (.ofBroker b) engine).spawn (.loop (.ofBroker b) epoch .entering))
      hset registration
  · exact hset ▸ .stays

theorem intakeStep_resume {a : Store.Access} {caller : Caller a} {answer : Store.Answer a}
    (hq : c.procs[i]? = some (.awaiting caller (.landed answer))) :
    c.IntakeStep e (.proceed i) ((c.resume i caller answer).intake e) := by
  cases caller with
  | start d point =>
    have hfollow := intake_followStart (i := i) (e := e)
      (Engine.resumeStart_keeps (c.engines d) point answer)
    exact hfollow ▸ .stays
  | commit d epoch point =>
    rw [resume]
    by_cases hd : d = e
    · subst hd
      rw [intake_followMove, (Engine.resumeCommit_keeps _ _ _ _ _ _).buffer]
      exact .commits rfl hq
    · rw [intake_followMove_other hd]
      exact .stays
  | election election attempt =>
    rw [resume, intake_followElection]
    exact .stays
  | broker b point =>
    refine intakeStep_followBroker intake_crown ?_
    rw [engines_crown]
    exact Broker.resumeStart_keeps _ _ _ _
  | beat b own =>
    rw [resume]
    cases hbeat : Broker.heartbeat (c.seats b).options c.clock answer with
    | done result =>
      refine intakeStep_finishBeat fun hown hresult => .inl ⟨answer, ?_, ?_⟩
      · rw [← hown]
        exact hq
      · rw [hbeat, hresult]
    | renew renewal => exact intakeStep_submit _ rfl renewal
  | client call => exact .stays

theorem intakeStep_stepLoop {epoch : Nat} {pause : Pause}
    (hq : c.procs[i]? = some (.loop d epoch pause)) :
    c.IntakeStep e (.proceed i) ((c.stepLoop i d epoch pause).intake e) := by
  have hother (hd : d ≠ e) : (c.stepLoop i d epoch pause).intake e = c.intake e := by
    cases pause with
    | entering | resting => exact intake_followLoop_other hd epoch _
    | givingWay =>
      exact (intake_followMove_other hd epoch _).trans (intake_noteBatch_other hd)
    | backingOff pass => exact intake_followMove_other hd epoch _
  have hlook (next : Engine.LoopStep) (hnext : next.calls = []) :
      c.IntakeStep d (.proceed i) ((c.followLoop i d epoch next).intake d) := by
    rw [intake_followLoop, hnext]
    exact .stays
  by_cases hd : d = e
  · subst hd
    cases pause with
    | entering =>
      refine hlook _ ?_
      unfold Engine.enterLoop
      split <;> rfl
    | resting =>
      refine hlook _ ?_
      unfold Engine.wakeLoop
      split <;> rfl
    | givingWay => exact intakeStep_drain hq
    | backingOff pass =>
      obtain ⟨hengine, -⟩ := (c.engines d).attempt_move epoch pass c.clock c.ids
      rw [stepLoop, intake_followMove, hengine]
      exact .retries rfl hq
  · exact hother hd ▸ .stays

theorem intakeStep_proceed (i : ProcId) :
    c.IntakeStep e (.proceed i) ((c.proceed i).intake e) := by
  unfold proceed
  split
  next hq => exact intakeStep_resume hq
  next hq => exact intakeStep_stepLoop hq
  next b ticket hq =>
    split
    next verdict hverdict =>
      cases verdict with
      | ok result => exact .stays
      | error cause =>
        exact intakeStep_stopEngine ((c.setProc i .ended).setReign b _) rfl fun he =>
          .unregistered he.symm hq hverdict
    · exact .stays
  next b own ticket hq =>
    split
    next verdict hverdict =>
      refine intakeStep_finishBeat fun hown hresult => .inr ⟨ticket, verdict, ?_, hverdict, hresult⟩
      rw [← hown]
      exact hq
    · exact .stays
  · exact .stays

/-- **What an act makes of an intake.** -/
theorem intakeStep (act : Act) : c.IntakeStep e act ((c.step act).intake e) := by
  cases act with
  | setClock | setMemory => exact .stays
  | submit d m =>
    rw [step]
    split
    · exact intakeStep_submit _ rfl m
    · exact .stays
  | startEngine d =>
    rw [step]
    split
    · have hfollow := intake_followStart (c := c.spawn .ended) (i := c.procs.length) (e := e)
        (Engine.start_keeps (c.engines d))
      exact hfollow ▸ .stays
    · exact .stays
  | stopEngine d =>
    rw [step]
    split
    next hopen => exact intakeStep_stopEngine _ rfl fun hd => hd ▸ .call hopen
    · exact .stays
  | elect election now =>
    have hstood : (c.record (.stood election now)).intake e = c.intake e :=
      intake_record _ rfl rfl rfl
    have hbegun := (intake_begin (.election election (.looking now)) trivial).trans hstood
    exact hbegun ▸ .stays
  | call call =>
    have hbegun := intake_begin (c := c) (e := e) (.client call) trivial
    exact hbegun ▸ .stays
  | startBroker b =>
    rw [step, startBroker]
    split
    · have hstood : ((c.setReign b .starting).record
          (.stood (c.seats b).options.election c.clock)).intake e = c.intake e :=
        intake_record _ rfl rfl rfl
      have hbegun := (intake_begin (.broker b (Broker.begin c.clock)) trivial).trans hstood
      exact hbegun ▸ .stays
    · exact .stays
  | beat b own =>
    rw [step, beat]
    split
    · have hbegun := intake_begin (c := c) (e := e) (.beat b own) trivial
      exact hbegun ▸ .stays
    · exact .stays
  | stopBroker b => exact intakeStep_stopBroker rfl rfl fun hreigns he => .broker he.symm hreigns
  | land i =>
    rcases land_cases c i with heq | ⟨a, caller, failure, -, heq⟩
    · rw [step, heq]
      exact .stays
    · have hlanded : (c.step (.land i)).intake e = c.intake e := by
        rw [step, heq]
        exact intake_record (c := (_ : Cluster).setProc i _) _ rfl rfl rfl
      exact hlanded ▸ .stays
  | proceed i => exact intakeStep_proceed i

/-! ## Batches -/

/-- A pass takes this batch. -/
def Moment.Drains (m : Moment) (e : EngineId) (batch : List Pending) : Prop :=
  m.after.drained e = batch :: m.before.drained e

/-- A pass is begun by a loop that has given way, and takes all that is there. -/
theorem Moment.Drains.takes {m : Moment} {batch : List Pending} (h : m.Drains e batch) :
    (∃ i epoch, m.act = .proceed i ∧ m.before.procs[i]? = some (.loop e epoch .givingWay)) ∧
      batch = (m.before.engines e).buffer ∧ (m.after.engines e).buffer = [] := by
  have hstep : m.before.IntakeStep e m.act (m.after.intake e) := intakeStep m.act
  have hdrained : (m.after.intake e).drained = batch :: m.before.drained e := h
  have hbuffer : (m.after.engines e).buffer = (m.after.intake e).buffer := rfl
  rw [hbuffer]
  generalize m.after.intake e = intake at hstep hdrained
  have hne : m.before.drained e ≠ batch :: m.before.drained e :=
    (List.cons_ne_self _ _).symm
  cases hstep with
  | drains hact hq => exact ⟨⟨_, _, hact, hq⟩, (List.cons.inj hdrained).1.symm, rfl⟩
  | stays | takes | rejects | retries | commits => exact absurd hdrained hne

theorem drained_suffix_step (act : Act) : c.drained e <:+ (c.step act).drained e := by
  have hstep := intakeStep (c := c) (e := e) act
  show c.drained e <:+ ((c.step act).intake e).drained
  generalize (c.step act).intake e = intake at hstep
  cases hstep with
  | drains => exact List.suffix_cons _ _
  | stays | takes | rejects | retries | commits => exact List.suffix_refl _

theorem drained_suffix_run (acts : List Act) : c.drained e <:+ (c.run acts).drained e :=
  run_induction (P := fun c' => c.drained e <:+ c'.drained e) (List.suffix_refl _)
    (fun _ act h => h.trans (drained_suffix_step act)) acts

theorem accepted_step (hstops : ¬ c.Stops e act)
    (hdrained : (c.step act).drained e = c.drained e) :
    ∃ new, (c.step act).accepted e = new.reverse ++ c.accepted e ∧
      ((c.step act).engines e).buffer = (c.engines e).buffer ++ new := by
  have hstep := intakeStep (c := c) (e := e) act
  show ∃ new, ((c.step act).intake e).accepted = new.reverse ++ c.accepted e ∧
    ((c.step act).intake e).buffer = (c.engines e).buffer ++ new
  have hsame : ((c.step act).intake e).drained = c.drained e := hdrained
  generalize (c.step act).intake e = intake at hstep hsame
  cases hstep with
  | takes p => exact ⟨[p], rfl, rfl⟩
  | rejects h => exact absurd h hstops
  | drains => exact absurd hsame.symm ((List.cons_ne_self _ _).symm)
  | stays | retries | commits => exact ⟨[], rfl, (List.append_nil _).symm⟩

/-- **What waits in the buffer is what was accepted**, as long as nobody takes it out. -/
theorem accepted_run (hstops : ∀ m ∈ c.trail acts, ¬ m.before.Stops e m.act)
    (hdrained : (c.run acts).drained e = c.drained e) :
    ∃ new, (c.run acts).accepted e = new.reverse ++ c.accepted e ∧
      ((c.run acts).engines e).buffer = (c.engines e).buffer ++ new := by
  induction acts generalizing c with
  | nil => exact ⟨[], rfl, (List.append_nil _).symm⟩
  | cons act acts ih =>
    have hlater : (c.step act).drained e <:+ ((c.step act).run acts).drained e :=
      drained_suffix_run acts
    have hsame : (c.step act).drained e = c.drained e := by
      rw [show ((c.step act).run acts).drained e = c.drained e from hdrained] at hlater
      exact hlater.eq_of_length_le (drained_suffix_step act).length_le
    obtain ⟨first, haccepted, hbuffer⟩ := accepted_step (hstops _ List.mem_cons_self) hsame
    obtain ⟨rest, haccepted', hbuffer'⟩ :=
      ih (fun m hm => hstops m (List.mem_cons_of_mem _ hm)) (hdrained.trans hsame.symm)
    refine ⟨first ++ rest, ?_, ?_⟩
    · rw [run, List.foldl_cons, ← run, haccepted', haccepted, List.reverse_append,
        List.append_assoc]
    · rw [run, List.foldl_cons, ← run, hbuffer', hbuffer, List.append_assoc]

end Cluster

end LeaseQueue
