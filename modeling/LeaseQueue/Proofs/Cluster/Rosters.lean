import LeaseQueue.Proofs.Cluster.Acknowledgement
import LeaseQueue.Proofs.Engine.Duties

/-!
# The roster of an engine in a cluster

What the processes of a cluster do for an engine makes up a roster:

  `c.roster e`

Whatever happens in a cluster is a step of the roster, or begins a start of the engine.
-/

namespace LeaseQueue.Cluster

open Engine (Control Duty Pending Roster Settlement Stage StartMove)
open Engine.Roster (Begin Step)

/-! ## The roster of an engine in a cluster -/

def Pause.stage : Pause → Stage
  | .entering | .resting => .resting
  | .givingWay => .yielding
  | .backingOff pass => .backingOff pass

/-- What a process does for the engine. -/
def Proc.duty (e : EngineId) : Proc → Duty
  | .awaiting (.start d point) _ => if d = e then .start point.epoch else .off
  | .awaiting (.broker b (.opening _ point)) _ =>
    if .ofBroker b = e then .start point.epoch else .off
  | .awaiting (.commit d epoch point) (.sent _) => if d = e then .loop epoch point.stage else .off
  | .awaiting (.commit d epoch point) (.landed answer) =>
    if d = e then .loop epoch (point.stageAfter answer) else .off
  | .loop d epoch pause => if d = e then .loop epoch pause.stage else .off
  | _ => .off

/-- The pass of the engine that begins a write. -/
def Event.begun (e : EngineId) : Event → List Engine.Pass
  | .called (.commit d _ point) _ => if d = e then point.stage.begun else []
  | _ => []

def duty (c : Cluster) (e : EngineId) (i : ProcId) : Duty := (c.procs[i]?).elim .off (Proc.duty e)

/-- The passes of an engine that began a write, the latest first. -/
def begun (c : Cluster) (e : EngineId) : List Engine.Pass := c.log.flatMap (Event.begun e)

def roster (c : Cluster) (e : EngineId) : Roster where
  toControl := (c.engines e).control
  tickets := c.tickets
  duty := c.duty e
  begun := c.begun e
  written := (c.written e).map (·.batch)

variable {c : Cluster} {i : ProcId} {d e : EngineId} {b : BrokerId} {q : Proc} {retries : Nat}
  {actor : Option Nat}

theorem duty_of_getElem? (hq : c.procs[i]? = some q) : c.duty e i = q.duty e := by
  rw [duty, hq]
  rfl

/-- Duty is done for one engine only. -/
theorem ite_off_iff {P : Duty → Prop} (hoff : ¬ P .off) {p : Prop} [Decidable p] {d : Duty} :
    P (if p then d else .off) ↔ p ∧ P d := by
  by_cases hp : p
  · rw [if_pos hp, and_iff_right hp]
  · rw [if_neg hp]
    exact iff_of_false hoff fun h => hp h.1

/-- Whoever is on duty is a process. -/
theorem exists_of_duty (h : c.duty e i ≠ .off) :
    ∃ q, c.procs[i]? = some q ∧ c.duty e i = q.duty e := by
  cases hq : c.procs[i]? with
  | none =>
    rw [duty, hq] at h
    exact absurd rfl h
  | some q => exact ⟨q, rfl, duty_of_getElem? hq⟩

theorem duty_length : c.duty e c.procs.length = .off := by
  rw [duty, List.getElem?_eq_none (Nat.le_refl _)]
  rfl

/-! ## Parts of a step -/

theorem step_refl (r : Roster) : Step retries actor r r := .elsewhere 0

theorem step_of_eq {r r' : Roster} (h : r' = r) : Step retries actor r r' := by
  rw [h]
  exact step_refl r

theorem roster_record (event : Event) (hbegun : event.begun e = [])
    (hwritten : event.written? e = none) : (c.record event).roster e = c.roster e := by
  simp only [roster, begun, written, record, List.flatMap_cons, hbegun, List.nil_append,
    List.filterMap_cons_none hwritten]
  rfl

theorem roster_record_written (event : Event) {w : Engine.Write} (hbegun : event.begun e = [])
    (hwritten : event.written? e = some w) : (c.record event).roster e =
      { c.roster e with written := w.batch :: (c.roster e).written } := by
  simp only [roster, begun, written, record, List.flatMap_cons, hbegun, List.nil_append,
    List.filterMap_cons_some hwritten, List.map_cons]
  rfl

theorem roster_settle (settled : List Settlement) :
    (c.settle d settled).roster e = c.roster e := by
  have hbegun : (settled.map (Event.settled d)).reverse.flatMap (Event.begun e) = [] := by
    rw [List.flatMap_eq_nil_iff]
    simp [Event.begun]
  have hwritten : (settled.map (Event.settled d)).reverse.filterMap (Event.written? e) = [] := by
    rw [List.filterMap_eq_nil_iff]
    simp [Event.written?]
  simp only [roster, begun, written, settle, List.flatMap_append, List.filterMap_append, hbegun,
    hwritten]
  rfl

theorem roster_setEngine (engine : Engine)
    (h : d = e → engine.control = (c.engines e).control) :
    (c.setEngine d engine).roster e = c.roster e := by
  have hcontrol : ((c.setEngine d engine).engines e).control = (c.engines e).control := by
    by_cases hd : e = d
    · subst hd
      rw [engines_setEngine_self, h rfl]
    · rw [engines_setEngine_of_ne c hd]
  simp only [roster, hcontrol]
  rfl

theorem roster_setEngine_self (engine : Engine) :
    (c.setEngine e engine).roster e = { c.roster e with toControl := engine.control } := by
  simp only [roster, engines_setEngine_self]
  rfl

theorem duty_setProc (hi : i < c.procs.length) (proc : Proc) :
    (c.setProc i proc).duty e = Function.update (c.duty e) i (proc.duty e) := by
  funext j
  by_cases hj : j = i
  · subst hj
    rw [Function.update_self, duty, setProc, List.getElem?_set_self hi]
    rfl
  · rw [Function.update_of_ne hj, duty, setProc, List.getElem?_set_ne (Ne.symm hj)]
    rfl

theorem duty_spawn (proc : Proc) :
    (c.spawn proc).duty e = Function.update (c.duty e) c.procs.length (proc.duty e) := by
  funext j
  by_cases hj : j = c.procs.length
  · subst hj
    rw [Function.update_self, duty, spawn, List.getElem?_concat_length]
    rfl
  · rw [Function.update_of_ne hj, duty, spawn, List.getElem?_append]
    split
    · rfl
    next hlt =>
      have hgt : c.procs.length < j := Nat.lt_of_le_of_ne (Nat.le_of_not_lt hlt) (Ne.symm hj)
      rw [List.getElem?_eq_none (by simp; omega), duty,
        List.getElem?_eq_none (Nat.le_of_lt hgt)]

theorem roster_setProc (hi : i < c.procs.length) (proc : Proc)
    (hbegun : (proc.duty e).begun = []) :
    (c.setProc i proc).roster e = (c.roster e).enter i (proc.duty e) := by
  simp only [roster, Roster.enter, duty_setProc hi, hbegun, List.nil_append]
  rfl

theorem roster_spawn (proc : Proc) (hbegun : (proc.duty e).begun = []) :
    (c.spawn proc).roster e = (c.roster e).enter c.procs.length (proc.duty e) := by
  simp only [roster, Roster.enter, duty_spawn, hbegun, List.nil_append]
  rfl

theorem roster_setProc_of_eq (hi : i < c.procs.length) {proc : Proc}
    (hproc : c.duty e i = proc.duty e) (hbegun : (proc.duty e).begun = []) :
    (c.setProc i proc).roster e = c.roster e := by
  rw [roster_setProc hi proc hbegun]
  exact Roster.enter_of_eq hproc hbegun

theorem roster_setProc_off (hi : i < c.procs.length) (hoff : c.duty e i = .off) {proc : Proc}
    (hproc : proc.duty e = .off) : (c.setProc i proc).roster e = c.roster e :=
  roster_setProc_of_eq hi (hoff.trans hproc.symm) (by rw [hproc]; rfl)

theorem roster_spawn_off {proc : Proc} (hproc : proc.duty e = .off) :
    (c.spawn proc).roster e = c.roster e := by
  rw [roster_spawn proc (by rw [hproc]; rfl), hproc]
  exact Roster.enter_of_eq duty_length rfl

/-- What a caller does for the engine when it has made its call. -/
def Caller.duty (e : EngineId) {a : Store.Access} (caller : Caller a) : Duty :=
  Proc.duty e (.awaiting caller (.sent none))

theorem begun_called {a : Store.Access} (caller : Caller a) (call : Store.Call a) :
    (Event.called caller call).begun e = (caller.duty e).begun := by
  cases caller with
  | start d point =>
    rw [Caller.duty, Proc.duty]
    split <;> rfl
  | broker b point =>
    cases point with
    | electing => rfl
    | opening now point =>
      rw [Caller.duty, Proc.duty]
      split <;> rfl
  | commit d epoch point =>
    rw [Event.begun, Caller.duty, Proc.duty]
    split <;> rfl
  | election | beat | client => rfl

theorem roster_launch (hi : i < c.procs.length) {a : Store.Access} (caller : Caller a) :
    (c.launch i caller).roster e = (c.roster e).enter i (caller.duty e) := by
  let failure := (c.memory.accept (c.callOf caller)).2.failure
  have hproc : Proc.duty e (.awaiting caller (.sent failure)) = caller.duty e := by
    cases caller with
    | broker b point => cases point <;> rfl
    | start | commit | election | beat | client => rfl
  have hduty : (c.launch i caller).duty e = Function.update (c.duty e) i (caller.duty e) := by
    rw [← hproc]
    exact duty_setProc hi _
  have hbegun : (c.launch i caller).begun e = (caller.duty e).begun ++ c.begun e := by
    rw [← begun_called caller (c.callOf caller)]
    rfl
  simp only [roster, Roster.enter, hduty, hbegun]
  rfl

theorem roster_launch_off (hi : i < c.procs.length) (hoff : c.duty e i = .off)
    {a : Store.Access} {caller : Caller a} (hcaller : caller.duty e = .off) :
    (c.launch i caller).roster e = c.roster e := by
  rw [roster_launch hi, hcaller]
  exact Roster.enter_of_eq hoff rfl

theorem roster_begin {a : Store.Access} {caller : Caller a} (hcaller : caller.duty e = .off) :
    (c.begin caller).roster e = c.roster e := by
  have hspawn : (c.spawn .ended).roster e = c.roster e := roster_spawn_off rfl
  rw [Cluster.begin, roster_launch (by simp [spawn]), hcaller, hspawn]
  exact Roster.enter_of_eq duty_length rfl

theorem roster_crown (document : Option Document) :
    (c.crown b document).roster e = c.roster e := by
  cases document with
  | none => rfl
  | some document => exact roster_record _ rfl rfl

theorem roster_noteBatch : (c.noteBatch d).roster e = c.roster e := by
  unfold noteBatch
  split
  · rfl
  · exact roster_record _ rfl rfl

/-! ## Submitting and stopping -/

theorem roster_submit_other (m : Mutation) (hd : d ≠ e) :
    (c.submit d m).roster e = { c.roster e with tickets := c.tickets + 1 } := by
  rw [submit]
  split
  · rw [roster_record _ rfl rfl]
    rfl
  · rw [roster_record _ rfl rfl, roster_setEngine _ fun heq => absurd heq hd]
    rfl

theorem roster_submit_of_stopped (m : Mutation) (h : (c.engines e).phase = .stopped) :
    (c.submit e m).roster e = { c.roster e with tickets := c.tickets + 1 } := by
  simp only [submit, Engine.submit, if_pos h]
  rw [roster_record _ rfl rfl]
  rfl

theorem roster_submit_self (m : Mutation) (h : (c.engines e).phase ≠ .stopped) :
    (c.submit e m).roster e = { c.roster e with
      tickets := c.tickets + 1
      buffer := (c.engines e).buffer ++ [⟨c.tickets, m⟩] } := by
  simp only [submit, Engine.submit, if_neg h]
  rw [roster_record _ rfl rfl, roster_setEngine_self]
  rfl

theorem step_submit (m : Mutation) :
    Step retries actor (c.roster e) ((c.submit d m).roster e) := by
  by_cases hd : d = e
  · subst hd
    by_cases hphase : (c.engines d).phase = .stopped
    · rw [roster_submit_of_stopped m hphase]
      exact .elsewhere 1
    · rw [roster_submit_self m hphase]
      exact .submit m hphase
  · rw [roster_submit_other m hd]
    exact .elsewhere 1

theorem step_stopEngine : Step retries actor (c.roster e) ((c.stopEngine d).roster e) := by
  unfold stopEngine
  split
  · exact step_refl _
  next engine settled heq =>
    rw [roster_settle]
    by_cases hd : d = e
    · subst hd
      rw [roster_setEngine_self]
      simp only [Engine.stop?] at heq
      split at heq
      · cases heq
      · cases heq
        exact .stop
    · exact step_of_eq (roster_setEngine engine fun heq => absurd heq hd)

theorem step_stopBroker : Step retries actor (c.roster e) ((c.stopBroker b).roster e) := by
  unfold stopBroker
  split
  next broker _ => exact step_stopEngine (c := c.setReign b (.begun broker.stop))
  · exact step_refl _

/-! ## Following moves -/

theorem roster_spawn_loop (epoch : Nat) : (c.spawn (.loop e epoch .entering)).roster e =
    (c.roster e).enter c.procs.length (.loop epoch .resting) := by
  have hduty : (Proc.loop e epoch .entering).duty e = .loop epoch .resting := if_pos rfl
  rw [roster_spawn _ (by rw [hduty]; rfl), hduty]

theorem roster_spawn_loop_other (hd : d ≠ e) (epoch : Nat) :
    (c.spawn (.loop d epoch .entering)).roster e = c.roster e :=
  roster_spawn_off (if_neg hd)

section Moves

variable (hi : i < c.procs.length)

include hi

theorem step_followStart {epoch : Nat} {move : Engine × Engine.Startup.Progress}
    (hduty : c.duty e i = .start epoch) (hmove : StartMove (c.engines e) epoch move) :
    Step retries (some i) (c.roster e) ((c.followStart i e move).roster e) := by
  cases hmove with
  | @waiting engine a point hepoch hcontrol =>
    apply step_of_eq
    have hcaller : (Caller.start e point).duty e = .start epoch := hepoch ▸ if_pos rfl
    rw [followStart, roster_launch (c := c.setEngine e engine) hi, hcaller,
      roster_setEngine engine fun _ => hcontrol]
    exact Roster.enter_of_eq hduty rfl
  | @running engine kick hepoch hcontrol =>
    let ended := ((c.setEngine e engine).setProc i .ended).record
      (.started e (.running epoch kick))
    have hended : ended.roster e = { (c.roster e).enter i .off with toControl := engine.control } := by
      rw [roster_record _ rfl rfl, roster_setProc (c := c.setEngine e engine) hi .ended rfl,
        roster_setEngine_self]
      rfl
    have hlength : ended.procs.length = c.procs.length := List.length_set
    have hrun : Step retries (some i) (c.roster e) _ :=
      .run i c.procs.length epoch none hduty hepoch duty_length
    have hspawn : (c.followStart i e (engine, .done (.running epoch kick))).roster e = _ :=
      roster_spawn_loop (c := ended) epoch
    rw [hspawn, hended, hlength, hcontrol]
    rw [Option.toList_none, List.map_nil, List.append_nil] at hrun
    exact hrun
  | @failed engine cause hcontrol =>
    have hended : (c.followStart i e (engine, .done (.failed cause))).roster e =
        { (c.roster e).enter i .off with toControl := engine.control } := by
      rw [followStart, roster_record _ rfl rfl,
        roster_setProc (c := c.setEngine e engine) hi .ended rfl, roster_setEngine_self]
      rfl
    rw [hended, hcontrol]
    exact .fail i epoch hduty

theorem roster_followStart_other (hoff : c.duty e i = .off) (hd : d ≠ e)
    (move : Engine × Engine.Startup.Progress) :
    (c.followStart i d move).roster e = c.roster e := by
  obtain ⟨engine, result | point⟩ := move
  · have hended (result : Engine.StartResult) : (((c.setEngine d engine).setProc i .ended).record
        (.started d result)).roster e = c.roster e := by
      rw [roster_record _ rfl rfl, roster_setProc_off (c := c.setEngine d engine) hi hoff rfl]
      exact roster_setEngine engine fun heq => absurd heq hd
    cases result with
    | running epoch kick => exact (roster_spawn_loop_other hd epoch).trans (hended _)
    | already | failed => exact hended _
  · have hcaller : (Caller.start d point).duty e = .off := if_neg hd
    rw [followStart, roster_launch_off (c := c.setEngine d engine) hi hoff hcaller]
    exact roster_setEngine engine fun heq => absurd heq hd

/-- A broker whose engine was started submits its registration at once. -/
theorem step_followBroker_opened {epoch : Nat} {o : Broker.Options} {now : Millis}
    {move : Engine × Engine.Startup.Progress} (hduty : c.duty (.ofBroker b) i = .start epoch)
    (hmove : StartMove (c.engines (.ofBroker b)) epoch move) :
    Step retries (some i) (c.roster (.ofBroker b))
      ((c.followBroker i b (Broker.openEngine o now move)).roster (.ofBroker b)) := by
  cases hmove with
  | @waiting engine a point hepoch hcontrol =>
    apply step_of_eq
    have hcaller : (Caller.broker b (.opening now point)).duty (.ofBroker b) = .start epoch :=
      hepoch ▸ if_pos rfl
    rw [Broker.openEngine, followBroker,
      roster_launch (c := c.setEngine (.ofBroker b) engine) hi, hcaller,
      roster_setEngine engine fun _ => hcontrol]
    exact Roster.enter_of_eq hduty rfl
  | @running engine kick hepoch hcontrol =>
    let m : Mutation := .registerBroker o.address now
    let spawned := (c.setEngine (.ofBroker b) engine).spawn (.loop (.ofBroker b) epoch .entering)
    have hlength : i < (spawned.submit (.ofBroker b) m).procs.length := by
      rw [procs_submit]
      exact Nat.lt_of_lt_of_le hi (by simp [spawned, spawn, setEngine])
    have hengine : spawned.engines (.ofBroker b) = engine := engines_setEngine_self ..
    have hphase : (spawned.engines (.ofBroker b)).phase ≠ .stopped := by
      rw [hengine, show engine.phase = engine.control.phase from rfl, hcontrol]
      intro heq
      cases heq
    have hspawned : spawned.roster (.ofBroker b) =
        { (c.roster (.ofBroker b)).enter c.procs.length (.loop epoch .resting) with
          toControl := engine.control } := by
      rw [roster_spawn_loop, roster_setEngine_self]
      rfl
    have hrun : Step retries (some i) (c.roster (.ofBroker b)) _ :=
      .run i c.procs.length epoch (some m) hduty hepoch duty_length
    show Step retries _ _ (((spawned.submit (.ofBroker b) m).setProc i
      (.registering b c.tickets)).roster _)
    rw [roster_setProc hlength _ rfl, roster_submit_self m hphase, hspawned, hengine]
    rw [Roster.enter_comm (Nat.ne_of_lt hi) rfl rfl] at hrun
    have hbuffer : engine.buffer = (c.engines (.ofBroker b)).buffer :=
      congrArg Control.buffer hcontrol
    rw [hcontrol, hbuffer]
    exact hrun
  | @failed engine cause hcontrol =>
    have hended : (c.followBroker i b (engine, .failed (.engine cause))).roster (.ofBroker b) =
        { (c.roster (.ofBroker b)).enter i .off with toControl := engine.control } := by
      let failed := (c.setEngine (.ofBroker b) engine).setReign b (.failed (.engine cause))
      rw [followBroker, roster_setProc (c := failed) hi .ended rfl]
      show (Roster.enter ((c.setEngine (.ofBroker b) engine).roster (.ofBroker b)) i .off) = _
      rw [roster_setEngine_self]
      rfl
    rw [Broker.openEngine, hended, hcontrol]
    exact .fail i epoch hduty

theorem step_followBroker_other (hoff : c.duty e i = .off) (hb : .ofBroker b ≠ e)
    (move : Engine × Broker.StartStep) :
    Step retries actor (c.roster e) ((c.followBroker i b move).roster e) := by
  obtain ⟨engine, point | ⟨epoch, kick, m⟩ | cause⟩ := move
  · have hcaller : (Caller.broker b point).duty e = .off := by
      cases point with
      | electing => rfl
      | opening now point => exact if_neg hb
    apply step_of_eq
    rw [followBroker, roster_launch_off (c := c.setEngine (.ofBroker b) engine) hi hoff hcaller]
    exact roster_setEngine engine fun heq => absurd heq hb
  · let spawned := (c.setEngine (.ofBroker b) engine).spawn (.loop (.ofBroker b) epoch .entering)
    have hspawned : spawned.roster e = c.roster e :=
      (roster_spawn_loop_other hb epoch).trans (roster_setEngine engine fun heq => absurd heq hb)
    have hlength : i < (spawned.submit (.ofBroker b) m).procs.length := by
      rw [procs_submit]
      exact Nat.lt_of_lt_of_le hi (by simp [spawned, spawn, setEngine])
    have hoff' : (spawned.submit (.ofBroker b) m).duty e i = .off := by
      rw [duty, procs_submit]
      exact (congrFun (congrArg Roster.duty hspawned) i).trans hoff
    have hsubmit : Step retries actor (spawned.roster e)
        ((spawned.submit (.ofBroker b) m).roster e) := step_submit m
    rw [followBroker, roster_setProc_off hlength hoff' rfl]
    exact hspawned ▸ hsubmit
  · let failed := (c.setEngine (.ofBroker b) engine).setReign b (.failed cause)
    apply step_of_eq
    rw [followBroker, roster_setProc_off (c := failed) hi hoff rfl]
    exact roster_setEngine engine fun heq => absurd heq hb

theorem step_enthrone (hoff : c.duty e i = .off) (verdict : Engine.Verdict) :
    Step retries actor (c.roster e) ((c.enthrone i b verdict).roster e) := by
  have hended : (c.setProc i .ended).roster e = c.roster e := roster_setProc_off hi hoff rfl
  cases verdict with
  | ok result => exact step_of_eq hended
  | error cause =>
    let failed := (c.setProc i .ended).setReign b (.failed (.engine cause))
    have hstop : Step retries actor (failed.roster e) ((failed.stopEngine (.ofBroker b)).roster e) :=
      step_stopEngine
    have hfailed : failed.roster e = c.roster e := hended
    exact hfailed ▸ hstop

theorem step_finishBeat (hoff : c.duty e i = .off) (own : Bool)
    (result : Except Broker.Error Bool) :
    Step retries actor (c.roster e) ((c.finishBeat i b own result).roster e) := by
  have hended : ((c.setProc i .ended).record (.beaten b result)).roster e = c.roster e := by
    rw [roster_record _ rfl rfl, roster_setProc_off hi hoff rfl]
  have hstop (c' : Cluster) (h : c'.roster e = c.roster e) :
      Step retries actor (c.roster e) ((c'.stopBroker b).roster e) := h ▸ step_stopBroker
  fun_cases finishBeat c i b own result
  · exact hstop _ hended
  · exact step_of_eq hended

theorem step_followBeat (hoff : c.duty e i = .off) (own : Bool) (next : Broker.HeartbeatStep) :
    Step retries actor (c.roster e) ((c.followBeat i b own next).roster e) := by
  cases next with
  | done result => exact step_finishBeat hi hoff own result
  | renew renewal =>
    have hlength : i < (c.submit (.ofBroker b) renewal).procs.length := by
      rw [procs_submit]
      exact hi
    have hoff' : (c.submit (.ofBroker b) renewal).duty e i = .off := by
      rw [duty, procs_submit]
      exact hoff
    rw [followBeat, roster_setProc_off hlength hoff' rfl]
    exact step_submit renewal

theorem roster_followElection (hoff : c.duty e i = .off) (election : Election)
    (progress : Store.Progress Election.Attempt Election.Outcome) :
    (c.followElection i election progress).roster e = c.roster e := by
  cases progress with
  | done outcome =>
    rw [followElection, roster_record _ rfl rfl, roster_setProc_off hi hoff rfl]
  | waiting attempt => exact roster_launch_off hi hoff rfl

/-! ## Loops -/

theorem roster_followLoop (epoch : Nat) (next : Engine.LoopStep) :
    (c.followLoop i e epoch next).roster e = (c.roster e).enter i (next.duty epoch) := by
  have hset (pause : Pause) (hbegun : pause.stage.begun = []) :
      (c.setProc i (.loop e epoch pause)).roster e =
        (c.roster e).enter i (.loop epoch pause.stage) := by
    have hduty : (Proc.loop e epoch pause).duty e = .loop epoch pause.stage := if_pos rfl
    rw [roster_setProc hi _ (by rw [hduty]; exact hbegun), hduty]
  cases next with
  | rest => exact hset .resting rfl
  | giveWay => exact hset .givingWay rfl
  | backOff pass wait => exact hset (.backingOff pass) rfl
  | leave => exact roster_setProc hi .ended rfl
  | commit point =>
    have hcaller : (Caller.commit e epoch point).duty e = .loop epoch point.stage := if_pos rfl
    rw [followLoop, roster_launch hi, hcaller]
    rfl

theorem roster_followLoop_other (hoff : c.duty e i = .off) (hd : d ≠ e) (epoch : Nat)
    (next : Engine.LoopStep) : (c.followLoop i d epoch next).roster e = c.roster e := by
  have hset (pause : Pause) : (c.setProc i (.loop d epoch pause)).roster e = c.roster e :=
    roster_setProc_off hi hoff (if_neg hd)
  cases next with
  | rest => exact hset .resting
  | giveWay => exact hset .givingWay
  | backOff pass wait => exact hset (.backingOff pass)
  | leave => exact roster_setProc_off hi hoff rfl
  | commit point => exact roster_launch_off hi hoff (if_neg hd)

theorem roster_followMove (epoch : Nat) (move : Engine.LoopMove) :
    (c.followMove i e epoch move).roster e =
      { (c.roster e).enter i (move.next.duty epoch) with toControl := move.engine.control } := by
  let settled := ((c.setEngine e move.engine).setIds move.ids).settle e move.settled
  have hsettled : settled.roster e = { c.roster e with toControl := move.engine.control } :=
    (roster_settle move.settled).trans (roster_setEngine_self move.engine)
  rw [followMove, roster_followLoop (c := settled) hi, hsettled]
  rfl

theorem roster_followMove_other (hoff : c.duty e i = .off) (hd : d ≠ e) (epoch : Nat)
    (move : Engine.LoopMove) : (c.followMove i d epoch move).roster e = c.roster e := by
  let settled := ((c.setEngine d move.engine).setIds move.ids).settle d move.settled
  have hsettled : settled.roster e = c.roster e :=
    (roster_settle move.settled).trans (roster_setEngine move.engine fun heq => absurd heq hd)
  rw [followMove, roster_followLoop_other (c := settled) hi hoff hd, hsettled]

theorem step_resumeCommit {epoch : Nat} {a : Store.Access} {point : Engine.Commit a}
    {answer : Store.Answer a} (hduty : c.duty e i = .loop epoch (point.stageAfter answer)) :
    Step (c.engines e).options.maxRetries.toNat (some i) (c.roster e) ((c.followMove i e epoch
      ((c.engines e).resumeCommit epoch c.clock c.ids point answer)).roster e) := by
  obtain ⟨hcontrol, hrest | ⟨s, hnext, hs⟩⟩ :=
    Engine.resumeCommit_move (c.engines e) epoch c.clock c.ids point answer
  · obtain ⟨hcan, hleave⟩ := hrest
    rw [roster_followMove hi, hcontrol, hleave]
    exact .rest i epoch _ hduty hcan
  · rw [roster_followMove hi, hcontrol, hs]
    exact .goOn i epoch _ s hduty hnext

theorem step_drain {epoch : Nat} (hduty : c.duty e i = .loop epoch .yielding) :
    Step retries (some i) (c.roster e) ((c.stepLoop i e epoch .givingWay).roster e) := by
  have hi' : i < (c.noteBatch e).procs.length := by
    unfold noteBatch
    split <;> exact hi
  rw [stepLoop, roster_followMove hi', roster_noteBatch]
  by_cases hbuffer : (c.engines e).buffer = []
  · rw [Engine.drain_of_nil hbuffer, Engine.enterLoop_duty]
    exact .rest i epoch .yielding hduty hbuffer
  · let drained : Engine := { c.engines e with buffer := [] }
    obtain ⟨hengine, s, hs, hnext⟩ :=
      drained.attempt_move epoch ⟨(c.engines e).buffer, 0⟩ c.clock c.ids
    rw [Engine.drain_of_ne_nil hbuffer, hnext, hengine]
    exact .drain i epoch s hduty hbuffer hs

theorem step_stepLoop_self {epoch : Nat} {pause : Pause}
    (hduty : c.duty e i = .loop epoch pause.stage) :
    Step retries (some i) (c.roster e) ((c.stepLoop i e epoch pause).roster e) := by
  cases pause with
  | entering =>
    rw [stepLoop, roster_followLoop hi, Engine.enterLoop_duty]
    exact .rest i epoch .resting hduty trivial
  | resting =>
    rw [stepLoop, roster_followLoop hi]
    by_cases hcurrent : (c.engines e).isCurrent epoch
    · rw [Engine.wakeLoop_of_isCurrent hcurrent]
      exact .wake i epoch hduty hcurrent
    · rw [Engine.wakeLoop_duty hcurrent]
      exact .rest i epoch .resting hduty trivial
  | givingWay => exact step_drain hi hduty
  | backingOff pass =>
    obtain ⟨hengine, s, hs, hnext⟩ := (c.engines e).attempt_move epoch pass c.clock c.ids
    rw [stepLoop, roster_followMove hi, hengine, hnext]
    rcases hs with rfl | rfl
    · exact .goOn i epoch _ _ hduty (.reread pass)
    · exact .goOn i epoch _ _ hduty (.rewrite pass)

theorem step_stepLoop_other (hoff : c.duty e i = .off) (hd : d ≠ e) (epoch : Nat) (pause : Pause) :
    (c.stepLoop i d epoch pause).roster e = c.roster e := by
  have hi' : i < (c.noteBatch d).procs.length := by
    unfold noteBatch
    split <;> exact hi
  have hoff' : (c.noteBatch d).duty e i = .off :=
    (congrFun (congrArg Roster.duty roster_noteBatch) i).trans hoff
  cases pause with
  | entering => exact roster_followLoop_other hi hoff hd epoch _
  | resting => exact roster_followLoop_other hi hoff hd epoch _
  | givingWay => exact (roster_followMove_other hi' hoff' hd epoch _).trans roster_noteBatch
  | backingOff pass => exact roster_followMove_other hi hoff hd epoch _

/-! ## Answers -/

/-- An effect that is not that of a write of the engine. -/
theorem roster_landed_of_eq {a : Store.Access} {caller : Caller a} {answer : Store.Answer a}
    (memory : Store.Memory)
    (hevent : Event.written? e (.landed c.clock caller (c.callOf caller) answer) = none)
    (hproc : c.duty e i = Proc.duty e (.awaiting caller (.landed answer)))
    (hbegun : (Proc.duty e (.awaiting caller (.landed answer))).begun = []) :
    (c.landed i caller answer memory).roster e = c.roster e := by
  rw [landed, roster_record _ rfl hevent]
  exact roster_setProc_of_eq (c := { c with memory }) hi hproc hbegun

theorem step_landed_commit {epoch : Nat} {a : Store.Access} {point : Engine.Commit a}
    (hduty : c.duty e i = .loop epoch point.stage) (answer : Store.Answer a)
    (memory : Store.Memory) :
    Step retries (some i) (c.roster e)
      ((c.landed i (.commit e epoch point) answer memory).roster e) := by
  have hproc : Proc.duty e (.awaiting (.commit e epoch point) (.landed answer)) =
      .loop epoch (point.stageAfter answer) := if_pos rfl
  cases point with
  | reading pass =>
    refine step_of_eq (roster_landed_of_eq hi memory ?_ (hduty.trans hproc.symm) ?_)
    · simp [Event.written?, Engine.Commit.hasLanded]
    · rw [hproc]
      rfl
  | writing pass document results expected =>
    have hset := roster_setProc (c := { c with memory }) hi
      (.awaiting (.commit e epoch (.writing pass document results expected)) (.landed answer))
      (by rw [hproc]; rfl)
    rw [hproc] at hset
    cases answer with
    | error cause =>
      have hland : Step retries (some i) (c.roster e) _ := .land i epoch pass false hduty
      rw [landed, roster_record _ rfl (by simp [Event.written?, Engine.Commit.hasLanded]), hset]
      exact hland
    | ok token =>
      have hland : Step retries (some i) (c.roster e) _ := .land i epoch pass true hduty
      have hwritten : Event.written? e (.landed c.clock
          (.commit e epoch (.writing pass document results expected))
          (c.callOf (.commit e epoch (.writing pass document results expected)))
          (.ok token)) = some ⟨pass.batch, document, results⟩ := by
        simp [Event.written?, Engine.Commit.hasLanded, Engine.Commit.aim]
      rw [landed, roster_record_written _ rfl hwritten, hset]
      exact hland

theorem step_landed {a : Store.Access} {caller : Caller a} {failure : Option Store.Error}
    (hq : c.procs[i]? = some (.awaiting caller (.sent failure))) (answer : Store.Answer a)
    (memory : Store.Memory) :
    Step retries (some i) (c.roster e) ((c.landed i caller answer memory).roster e) := by
  have hduty := duty_of_getElem? (e := e) hq
  cases caller with
  | commit d epoch point =>
    by_cases hd : d = e
    · subst hd
      exact step_landed_commit hi (hduty.trans (if_pos rfl)) answer memory
    · have hoff : Proc.duty e (.awaiting (.commit d epoch point) (.landed answer)) = .off :=
        if_neg hd
      refine step_of_eq (roster_landed_of_eq hi memory (by simp [Event.written?, hd]) ?_ ?_)
      · rw [hduty, hoff]
        exact if_neg hd
      · rw [hoff]
        rfl
  | start d point =>
    refine step_of_eq (roster_landed_of_eq hi memory rfl hduty ?_)
    rw [Proc.duty]
    split <;> rfl
  | broker b point =>
    cases point with
    | electing => exact step_of_eq (roster_landed_of_eq hi memory rfl hduty rfl)
    | opening now point =>
      refine step_of_eq (roster_landed_of_eq hi memory rfl hduty ?_)
      rw [Proc.duty]
      split <;> rfl
  | election | beat | client => exact step_of_eq (roster_landed_of_eq hi memory rfl hduty rfl)

end Moves

theorem step_land (i : ProcId) : Step retries (some i) (c.roster e) ((c.land i).roster e) := by
  rcases land_cases c i with heq | ⟨a, caller, failure, hq, heq⟩
  · exact step_of_eq (congrArg (roster · e) heq)
  · rw [heq]
    exact step_landed (List.getElem?_eq_some_iff.1 hq).1 hq _ _

/-! ## Starts -/

/-- An act that can begin a start of the engine. -/
def Starts (c : Cluster) (e : EngineId) : Act → Prop
  | .startEngine d => d = e
  | .proceed i => ∃ (b : BrokerId) (a : Store.Access) (now : Millis)
      (attempt : Election.Attempt a) (answer : Store.Answer a), e = .ofBroker b ∧
      c.procs[i]? = some (.awaiting (.broker b (.electing now attempt)) (.landed answer))
  | _ => False

theorem begin_of_stopped {r : Roster} (hphase : (c.engines e).phase = .stopped)
    (hoff : c.duty e i = .off)
    (hr : r = { c.roster e with
      toControl := ⟨.starting, (c.engines e).epoch + 1, (c.engines e).buffer⟩ }.enter i
        (.start ((c.engines e).epoch + 1))) : Begin i (c.roster e) r := by
  rw [hr]
  exact .begin hphase hoff

theorem roster_startEngine_other (hd : d ≠ e) : (c.startEngine d).roster e = c.roster e := by
  have hspawn : (c.spawn .ended).roster e = c.roster e := roster_spawn_off rfl
  have hoff : (c.spawn .ended).duty e c.procs.length = .off :=
    (congrFun (congrArg Roster.duty hspawn) _).trans duty_length
  exact (roster_followStart_other (by simp [spawn]) hoff hd _).trans hspawn

theorem step_or_begin_startEngine (e : EngineId) :
    Step retries actor (c.roster e) ((c.startEngine e).roster e) ∨
    ∃ i, Begin i (c.roster e) ((c.startEngine e).roster e) := by
  have hspawn : (c.spawn .ended).roster e = c.roster e := roster_spawn_off rfl
  have hi : c.procs.length < (c.spawn .ended).procs.length := by simp [spawn]
  by_cases hphase : (c.engines e).phase = .stopped
  · let engine : Engine :=
      { c.engines e with phase := .starting, epoch := (c.engines e).epoch + 1 }
    let point : Engine.Startup .put := .creating ((c.engines e).epoch + 1)
    have hcaller : (Caller.start e point).duty e = .start ((c.engines e).epoch + 1) := if_pos rfl
    refine .inr ⟨c.procs.length, begin_of_stopped hphase duty_length ?_⟩
    rw [startEngine, Engine.start, if_pos hphase, followStart,
      roster_launch (c := (c.spawn .ended).setEngine e engine) hi, hcaller, roster_setEngine_self,
      hspawn]
    rfl
  · have hoff : (c.spawn .ended).duty e c.procs.length = .off :=
      (congrFun (congrArg Roster.duty hspawn) _).trans duty_length
    refine .inl (step_of_eq ?_)
    rw [startEngine, Engine.start, if_neg hphase, followStart, roster_record _ rfl rfl,
      roster_setProc_off (c := (c.spawn .ended).setEngine e (c.engines e)) hi hoff rfl]
    exact (roster_setEngine (c := c.spawn .ended) _ fun _ => rfl).trans hspawn

/-- What a broker does with the start of its engine after a won election. -/
theorem step_or_begin_openEngine (hi : i < c.procs.length) (hoff : c.duty (.ofBroker b) i = .off)
    (o : Broker.Options) (now : Millis) :
    let c' := c.followBroker i b (Broker.openEngine o now (c.engines (.ofBroker b)).start)
    Step retries actor (c.roster (.ofBroker b)) (c'.roster (.ofBroker b)) ∨
    Begin i (c.roster (.ofBroker b)) (c'.roster (.ofBroker b)) := by
  intro c'
  by_cases hphase : (c.engines (.ofBroker b)).phase = .stopped
  · let engine : Engine :=
      { c.engines (.ofBroker b) with
        phase := .starting
        epoch := (c.engines (.ofBroker b)).epoch + 1 }
    let point : Engine.Startup .put := .creating ((c.engines (.ofBroker b)).epoch + 1)
    have hcaller : (Caller.broker b (.opening now point)).duty (.ofBroker b) =
        .start ((c.engines (.ofBroker b)).epoch + 1) := if_pos rfl
    have hc' : c' = (c.setEngine (.ofBroker b) engine).launch i
        (.broker b (.opening now point)) := by
      simp only [c', Engine.start, if_pos hphase]
      rfl
    refine .inr (begin_of_stopped hphase hoff ?_)
    rw [hc', roster_launch (c := c.setEngine (.ofBroker b) engine) hi, hcaller,
      roster_setEngine_self]
    rfl
  · let failed := (c.setEngine (.ofBroker b) (c.engines (.ofBroker b))).setReign b
      (.failed (.engine .stopped))
    have hc' : c' = failed.setProc i .ended := by
      simp only [c', Engine.start, if_neg hphase]
      rfl
    refine .inl (step_of_eq ?_)
    rw [hc', roster_setProc_off (c := failed) hi hoff rfl]
    exact roster_setEngine _ fun _ => rfl

theorem step_or_begin_electing {a : Store.Access} {now : Millis} {attempt : Election.Attempt a}
    {answer : Store.Answer a} (hi : i < c.procs.length) (hoff : c.duty (.ofBroker b) i = .off) :
    let c' := c.followBroker i b
      (Broker.resumeStart (c.seats b).options (c.engines (.ofBroker b)) (.electing now attempt)
        answer)
    Step retries actor (c.roster (.ofBroker b)) (c'.roster (.ofBroker b)) ∨
    Begin i (c.roster (.ofBroker b)) (c'.roster (.ofBroker b)) := by
  intro c'
  have hfail (cause : Broker.Error) :
      (c.followBroker i b (c.engines (.ofBroker b), .failed cause)).roster (.ofBroker b) =
        c.roster (.ofBroker b) := by
    let failed := (c.setEngine (.ofBroker b) (c.engines (.ofBroker b))).setReign b (.failed cause)
    rw [followBroker, roster_setProc_off (c := failed) hi hoff rfl]
    exact roster_setEngine _ fun _ => rfl
  simp only [c', Broker.resumeStart]
  split
  next attempt' _ =>
    refine .inl (step_of_eq ?_)
    have hcaller : (Caller.broker b (.electing now attempt')).duty (.ofBroker b) = .off := rfl
    rw [followBroker, roster_launch_off (c := c.setEngine (.ofBroker b) (c.engines (.ofBroker b)))
      hi hoff hcaller]
    exact roster_setEngine _ fun _ => rfl
  · exact .inl (step_of_eq (hfail _))
  · exact .inl (step_of_eq (hfail _))
  · exact .inl (step_of_eq (hfail _))
  · exact step_or_begin_openEngine hi hoff _ now
  · exact step_or_begin_openEngine hi hoff _ now

/-! ## Every step refines the roster -/

theorem step_or_begin_resumeBroker {a : Store.Access} {point : Broker.Startup a}
    {answer : Store.Answer a}
    (hq : c.procs[i]? = some (.awaiting (.broker b point) (.landed answer))) :
    let c' := c.resume i (.broker b point) answer
    Step retries (some i) (c.roster e) (c'.roster e) ∨
    (c.Starts e (.proceed i) ∧ Begin i (c.roster e) (c'.roster e)) := by
  intro c'
  let crowned := c.crown b (crown? (c.seats b).options point answer)
  obtain ⟨hprocs, hseats, hengines, -⟩ :=
    crown_fields c b (crown? (c.seats b).options point answer)
  have hi : i < crowned.procs.length := hprocs ▸ (List.getElem?_eq_some_iff.1 hq).1
  have hroster : crowned.roster e = c.roster e := roster_crown _
  have hduty : crowned.duty e i = Proc.duty e (.awaiting (.broker b point) (.landed answer)) :=
    (congrFun (congrArg Roster.duty hroster) i).trans (duty_of_getElem? hq)
  by_cases hb : .ofBroker b = e
  · subst hb
    have hc' : c' = crowned.followBroker i b (Broker.resumeStart (crowned.seats b).options
        (crowned.engines (.ofBroker b)) point answer) := by
      rw [hseats, hengines]
      rfl
    rw [hc', ← hroster]
    cases point with
    | electing now attempt =>
      rcases step_or_begin_electing hi hduty with hstep | hbegin
      · exact .inl hstep
      · exact .inr ⟨⟨b, a, now, attempt, answer, rfl, hq⟩, hbegin⟩
    | opening now point =>
      refine .inl (step_followBroker_opened hi (hduty.trans (if_pos rfl)) ?_)
      exact Engine.resumeStart_move _ point answer
  · have hoff : crowned.duty e i = .off := by
      rw [hduty]
      cases point with
      | electing => rfl
      | opening => exact if_neg hb
    exact .inl (hroster ▸ step_followBroker_other hi hoff hb _)

theorem step_or_begin_resume {a : Store.Access} {caller : Caller a} {answer : Store.Answer a}
    (hq : c.procs[i]? = some (.awaiting caller (.landed answer))) :
    let c' := c.resume i caller answer
    Step (c.engines e).options.maxRetries.toNat (some i) (c.roster e) (c'.roster e) ∨
    (c.Starts e (.proceed i) ∧ Begin i (c.roster e) (c'.roster e)) := by
  have hi : i < c.procs.length := (List.getElem?_eq_some_iff.1 hq).1
  have hduty := duty_of_getElem? (e := e) hq
  cases caller with
  | start d point =>
    left
    by_cases hd : d = e
    · subst hd
      exact step_followStart hi (hduty.trans (if_pos rfl)) (Engine.resumeStart_move _ point answer)
    · exact step_of_eq (roster_followStart_other hi (hduty.trans (if_neg hd)) hd _)
  | commit d epoch point =>
    left
    by_cases hd : d = e
    · subst hd
      exact step_resumeCommit hi (hduty.trans (if_pos rfl))
    · exact step_of_eq (roster_followMove_other hi (hduty.trans (if_neg hd)) hd epoch _)
  | election election attempt => exact .inl (step_of_eq (roster_followElection hi hduty _ _))
  | broker b point => exact step_or_begin_resumeBroker hq
  | beat b own => exact .inl (step_followBeat hi hduty own _)
  | client call => exact .inl (step_of_eq (roster_setProc_off hi hduty rfl))

theorem step_or_begin_proceed (i : ProcId) :
    Step (c.engines e).options.maxRetries.toNat (some i) (c.roster e) ((c.proceed i).roster e) ∨
    (c.Starts e (.proceed i) ∧ Begin i (c.roster e) ((c.proceed i).roster e)) := by
  unfold proceed
  split
  next hq => exact step_or_begin_resume hq
  next d epoch pause hq =>
    left
    have hi : i < c.procs.length := (List.getElem?_eq_some_iff.1 hq).1
    have hduty := duty_of_getElem? (e := e) hq
    by_cases hd : d = e
    · subst hd
      exact step_stepLoop_self hi (hduty.trans (if_pos rfl))
    · exact step_of_eq (step_stepLoop_other hi (hduty.trans (if_neg hd)) hd epoch pause)
  next hq =>
    left
    split
    · exact step_enthrone (List.getElem?_eq_some_iff.1 hq).1 (duty_of_getElem? hq) _
    · exact step_refl _
  next hq =>
    left
    split
    · exact step_finishBeat (List.getElem?_eq_some_iff.1 hq).1 (duty_of_getElem? hq) _ _
    · exact step_refl _
  · exact .inl (step_refl _)

/-- The process that an act is about. -/
def Act.actor? : Act → Option ProcId
  | .land i | .proceed i => some i
  | _ => none

/-- **Every step of a cluster is a step of each roster**, or begins a start. -/
theorem step_or_begin (act : Act) :
    Step (c.engines e).options.maxRetries.toNat act.actor? (c.roster e) ((c.step act).roster e) ∨
    (c.Starts e act ∧ ∃ i, Begin i (c.roster e) ((c.step act).roster e)) := by
  cases act with
  | setClock clock => exact .inl (step_refl _)
  | setMemory options => exact .inl (step_refl _)
  | submit d m =>
    left
    rw [step]
    split
    · exact step_submit m
    · exact step_refl _
  | startEngine d =>
    rw [step]
    split
    · by_cases hd : d = e
      · subst hd
        rcases step_or_begin_startEngine d with hstep | hbegin
        · exact .inl hstep
        · exact .inr ⟨rfl, hbegin⟩
      · exact .inl (step_of_eq (roster_startEngine_other hd))
    · exact .inl (step_refl _)
  | stopEngine d =>
    left
    rw [step]
    split
    · exact step_stopEngine
    · exact step_refl _
  | elect election now =>
    have hstood : (c.record (.stood election now)).roster e = c.roster e :=
      roster_record _ rfl rfl
    exact .inl (step_of_eq ((roster_begin rfl).trans hstood))
  | call call => exact .inl (step_of_eq (roster_begin rfl))
  | startBroker b =>
    left
    rw [step, startBroker]
    split
    · have hstood : ((c.setReign b .starting).record
          (.stood (c.seats b).options.election c.clock)).roster e = c.roster e :=
        roster_record _ rfl rfl
      exact step_of_eq ((roster_begin rfl).trans hstood)
    · exact step_refl _
  | beat b own =>
    left
    rw [step, beat]
    split
    · exact step_of_eq (roster_begin rfl)
    · exact step_refl _
  | stopBroker b => exact .inl step_stopBroker
  | land i => exact .inl (step_land i)
  | proceed i =>
    rcases step_or_begin_proceed i with hstep | ⟨hstarts, hbegin⟩
    · exact .inl hstep
    · exact .inr ⟨hstarts, i, hbegin⟩

/-! ## Runs -/

theorem wellFormed_step (h : (c.roster e).WellFormed (c.engines e).options.maxRetries.toNat)
    (act : Act) :
    ((c.step act).roster e).WellFormed ((c.step act).engines e).options.maxRetries.toNat := by
  rw [engine_options_eq (options_step c act)]
  rcases step_or_begin (c := c) (e := e) act with hstep | ⟨-, i, hbegin⟩
  · exact h.step hstep
  · exact h.begin hbegin

theorem wellFormed_run (h : (c.roster e).WellFormed (c.engines e).options.maxRetries.toNat)
    (acts : List Act) :
    ((c.run acts).roster e).WellFormed ((c.run acts).engines e).options.maxRetries.toNat := by
  induction acts generalizing c with
  | nil => exact h
  | cons act acts ih => exact ih (wellFormed_step h act)

theorem roster_init (engines : Nat → Engine.Options) (brokers : BrokerId → Broker.Options)
    (memory : Store.Memory) (ids : IdSupply) (clock : Millis) (e : EngineId) :
    (init engines brokers memory ids clock).roster e = .empty := by
  cases e <;> rfl

theorem wellFormed_run_init (engines : Nat → Engine.Options)
    (brokers : BrokerId → Broker.Options) (memory : Store.Memory) (ids : IdSupply) (clock : Millis)
    (acts : List Act) (e : EngineId) :
    let c := (init engines brokers memory ids clock).run acts
    (c.roster e).WellFormed (c.engines e).options.maxRetries.toNat :=
  wellFormed_run (roster_init engines brokers memory ids clock e ▸ Roster.wellFormed_empty) acts

/-- Engines and brokers at an empty store. -/
def blank : Cluster :=
  init (fun _ => .standard) (fun b => .standard (toString b)) .empty ⟨toString, 0⟩ 0

end LeaseQueue.Cluster
