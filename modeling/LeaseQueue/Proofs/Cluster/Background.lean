import LeaseQueue.Proofs.Cluster.Basic
import LeaseQueue.Proofs.Engine.Moves

/-!
# What only landings change

Engines and brokers keep the options that they were set up with, objects change only when a call
takes effect, and a call that has taken effect was the one its caller makes.

  `(step c act).background = c.background` unless `act` lands a call
-/

namespace LeaseQueue.Cluster

def Event.isLanding : Event → Bool
  | .landed _ _ _ _ => true
  | _ => false

structure Background where
  engines : EngineId → Engine.Options
  brokers : BrokerId → Broker.Options
  entries : List (String × Store.Memory.Entry)
  lastVersion : Nat
  landings : List Event

def background (c : Cluster) : Background where
  engines e := (c.engines e).options
  brokers b := (c.seats b).options
  entries := c.memory.entries
  lastVersion := c.memory.lastVersion
  landings := c.log.filter Event.isLanding

variable (c : Cluster) (i : ProcId) (e : EngineId) (b : BrokerId)

theorem background_setEngine (engine : Engine) (h : engine.options = (c.engines e).options) :
    (c.setEngine e engine).background = c.background := by
  have hengines : (fun d => (Function.update c.engines e engine d).options) =
      fun d => (c.engines d).options := by
    ext d
    by_cases hd : d = e
    · subst hd
      rw [Function.update_self, h]
    · rw [Function.update_of_ne hd]
  simp only [background, setEngine, hengines]

theorem background_setReign (reign : Reign) : (c.setReign b reign).background = c.background := by
  have hseats : (fun d => (Function.update c.seats b { c.seats b with reign } d).options) =
      fun d => (c.seats d).options := by
    ext d
    by_cases hd : d = b
    · subst hd
      rw [Function.update_self]
    · rw [Function.update_of_ne hd]
  simp only [background, setReign, hseats]

theorem background_settle (settled : List Engine.Settlement) :
    (c.settle e settled).background = c.background := by
  have hnone : (settled.map (Event.settled e)).reverse.filter Event.isLanding = [] := by
    rw [List.filter_eq_nil_iff]
    simp [Event.isLanding]
  simp only [background, settle, List.filter_append, hnone, List.nil_append]

theorem background_launch {a : Store.Access} (caller : Caller a) :
    (c.launch i caller).background = c.background := by
  simp only [launch]
  generalize c.callOf caller = call
  cases call <;> rfl

theorem background_begin {a : Store.Access} (caller : Caller a) :
    (c.begin caller).background = c.background := background_launch (c.spawn .ended) _ caller

theorem background_submit (m : Mutation) : (c.submit e m).background = c.background := by
  have h := Engine.submit_options (c.engines e) ⟨c.tickets, m⟩
  rw [submit]
  split
  · rfl
  next engine kick heq =>
    rw [heq] at h
    exact background_setEngine _ e engine h

theorem background_stopEngine : (c.stopEngine e).background = c.background := by
  unfold stopEngine
  split
  · rfl
  next engine settled heq =>
    refine (background_settle _ e settled).trans (background_setEngine c e engine ?_)
    simp only [Engine.stop?] at heq
    split at heq
    · cases heq
    · cases heq
      rfl

theorem background_stopBroker : (c.stopBroker b).background = c.background := by
  unfold stopBroker
  split
  · rw [background_stopEngine, background_setReign]
  · rfl

theorem background_followStart (move : Engine × Engine.Startup.Progress)
    (h : move.1.options = (c.engines e).options) :
    (c.followStart i e move).background = c.background := by
  have hset := background_setEngine c e move.1 h
  obtain ⟨engine, result | point⟩ := move
  · cases result <;> exact hset
  · exact (background_launch _ i (.start e point)).trans hset

theorem background_followLoop (epoch : Nat) (next : Engine.LoopStep) :
    (c.followLoop i e epoch next).background = c.background := by
  cases next with
  | commit point => exact background_launch c i (.commit e epoch point)
  | rest | giveWay | backOff | leave => rfl

theorem background_followMove (epoch : Nat) (move : Engine.LoopMove)
    (h : move.engine.options = (c.engines e).options) :
    (c.followMove i e epoch move).background = c.background := by
  rw [followMove, background_followLoop, background_settle]
  exact background_setEngine c e move.engine h

theorem background_followElection (election : Election)
    (progress : Store.Progress Election.Attempt Election.Outcome) :
    (c.followElection i election progress).background = c.background := by
  cases progress with
  | done outcome => rfl
  | waiting attempt => exact background_launch c i (.election election attempt)

theorem background_followBroker (move : Engine × Broker.StartStep)
    (h : move.1.options = (c.engines (.ofBroker b)).options) :
    (c.followBroker i b move).background = c.background := by
  have hset := background_setEngine c (.ofBroker b) move.1 h
  obtain ⟨engine, point | _ | _⟩ := move
  · exact (background_launch _ i (.broker b point)).trans hset
  · exact (background_submit _ _ _).trans hset
  · exact (background_setReign _ _ _).trans hset

theorem background_crown (document : Option Document) :
    (c.crown b document).background = c.background := by
  cases document <;> rfl

theorem engines_crown (document : Option Document) : (c.crown b document).engines = c.engines := by
  cases document <;> rfl

theorem crown_fields (document : Option Document) :
    (c.crown b document).procs = c.procs ∧ (c.crown b document).seats = c.seats ∧
      (c.crown b document).engines = c.engines ∧ c.log ⊆ (c.crown b document).log := by
  cases document with
  | none => exact ⟨rfl, rfl, rfl, fun _ => id⟩
  | some d => exact ⟨rfl, rfl, rfl, List.subset_cons_self _ _⟩

theorem background_enthrone (verdict : Engine.Verdict) :
    (c.enthrone i b verdict).background = c.background := by
  cases verdict with
  | ok result => exact background_setReign _ _ _
  | error cause => exact (background_stopEngine _ _).trans (background_setReign _ _ _)

theorem background_finishBeat (own : Bool) (result : Except Broker.Error Bool) :
    (c.finishBeat i b own result).background = c.background := by
  have h := background_stopBroker ((c.setProc i .ended).record (.beaten b result)) b
  fun_cases finishBeat c i b own result
  · exact h
  · rfl

theorem background_followBeat (own : Bool) (next : Broker.HeartbeatStep) :
    (c.followBeat i b own next).background = c.background := by
  cases next with
  | done result => exact background_finishBeat c i b own result
  | renew renewal => exact background_submit _ _ _

theorem background_resume {a : Store.Access} (caller : Caller a) (answer : Store.Answer a) :
    (c.resume i caller answer).background = c.background := by
  cases caller with
  | start e point =>
    exact background_followStart c i e _ (Engine.resumeStart_keeps _ _ _).options
  | commit e epoch point =>
    exact background_followMove c i e epoch _ (Engine.resumeCommit_keeps _ _ _ _ _ _).options
  | election election attempt => exact background_followElection c i election _
  | broker b point =>
    refine (background_followBroker _ i b _ ?_).trans (background_crown c b _)
    rw [engines_crown]
    exact (Broker.resumeStart_keeps _ _ _ _).options
  | beat b own => exact background_followBeat c i b own _
  | client call => rfl

theorem background_noteBatch : (c.noteBatch e).background = c.background := by
  unfold noteBatch
  split <;> rfl

theorem engines_noteBatch : (c.noteBatch e).engines = c.engines := by
  unfold noteBatch
  split <;> rfl

theorem background_stepLoop (epoch : Nat) (pause : Pause) :
    (c.stepLoop i e epoch pause).background = c.background := by
  cases pause with
  | entering => exact background_followLoop c i e epoch _
  | resting => exact background_followLoop c i e epoch _
  | givingWay =>
    refine (background_followMove _ i e epoch _ ?_).trans (background_noteBatch c e)
    rw [engines_noteBatch]
    exact Engine.drain_options _ _ _ _
  | backingOff pass =>
    exact background_followMove c i e epoch _ (Engine.attempt_goesOn _ _ _ _).keeps.options

theorem background_proceed : (c.proceed i).background = c.background := by
  unfold proceed
  split
  · exact background_resume c i _ _
  · exact background_stepLoop c i _ _ _
  · split
    · exact background_enthrone c i _ _
    · rfl
  · split
    · exact background_finishBeat c i _ _ _
    · rfl
  · rfl

theorem background_startBroker : (c.startBroker b).background = c.background := by
  unfold startBroker
  split
  · exact (background_begin _ _).trans (background_setReign c b .starting)
  · rfl

/-- **Only landings change the background.** -/
theorem background_step (act : Act) (h : ∀ i, act ≠ .land i) :
    (c.step act).background = c.background := by
  cases act with
  | setClock clock => rfl
  | setMemory options => rfl
  | submit e m =>
    rw [step]
    split
    · exact background_submit c e m
    · rfl
  | startEngine e =>
    rw [step]
    split
    · exact background_followStart _ _ e _ (Engine.start_keeps _).options
    · rfl
  | stopEngine e =>
    rw [step]
    split
    · exact background_stopEngine c e
    · rfl
  | elect election now => exact background_begin (c.record _) _
  | call call => exact background_begin c _
  | startBroker b => exact background_startBroker c b
  | beat b own =>
    rw [step, beat]
    split
    · exact background_begin c _
    · rfl
  | stopBroker b => exact background_stopBroker c b
  | land i => exact absurd rfl (h i)
  | proceed i => exact background_proceed c i

/-! ## Landings -/

/-- A landing, taken apart. -/
theorem land_cases :
    c.land i = c ∨
    ∃ (a : Store.Access) (caller : Caller a) (failure : Option Store.Error),
      c.procs[i]? = some (.awaiting caller (.sent failure)) ∧
      c.land i = c.landed i caller (c.memory.finish ⟨c.callOf caller, failure⟩).1
        (c.memory.finish ⟨c.callOf caller, failure⟩).2 := by
  unfold land
  split
  next a caller failure hq => exact .inr ⟨a, caller, failure, hq, rfl⟩
  · exact .inl rfl

def options (c : Cluster) : (EngineId → Engine.Options) × (BrokerId → Broker.Options) :=
  (c.background.engines, c.background.brokers)

theorem options_setReign (reign : Reign) : (c.setReign b reign).options = c.options := by
  rw [options, background_setReign]
  rfl

theorem options_step (act : Act) : (c.step act).options = c.options := by
  rcases act.land_or with ⟨i, rfl⟩ | hne
  · rw [step]
    rcases land_cases c i with heq | ⟨a, caller, failure, _, heq⟩
    · rw [heq]
    · rw [heq]
      rfl
  · rw [options, background_step c act hne]
    rfl

theorem options_run (acts : List Act) : (c.run acts).options = c.options := by
  induction acts generalizing c with
  | nil => rfl
  | cons act acts ih => exact (ih (c.step act)).trans (options_step c act)

theorem engine_options_eq {c c' : Cluster} (h : c'.options = c.options) (e : EngineId) :
    (c'.engines e).options = (c.engines e).options := congrFun (congrArg Prod.fst h) e

theorem broker_options_eq {c c' : Cluster} (h : c'.options = c.options) (b : BrokerId) :
    (c'.seats b).options = (c.seats b).options := congrFun (congrArg Prod.snd h) b

/-- The engine of a broker has the options that the broker was given for it. -/
def Outfitted (c : Cluster) : Prop :=
  ∀ b, (c.engines (.ofBroker b)).options = (c.seats b).options.engine

theorem Outfitted.of_options {c c' : Cluster} (h : c.Outfitted)
    (hoptions : c'.options = c.options) : c'.Outfitted := by
  intro b
  rw [engine_options_eq hoptions, broker_options_eq hoptions]
  exact h b

/-- What a caller calls depends on options only. -/
theorem callOf_eq_of_options {c c' : Cluster} (h : c'.options = c.options) {a : Store.Access}
    (caller : Caller a) : c'.callOf caller = c.callOf caller := by
  cases caller with
  | start e point => rw [callOf, callOf, engine_options_eq h]
  | commit e epoch point => rw [callOf, callOf, engine_options_eq h]
  | election election attempt => rfl
  | broker b point => rw [callOf, callOf, broker_options_eq h]
  | beat b own => rw [callOf, callOf, broker_options_eq h]
  | client call => rfl

/-- Every call that has taken effect is the one that its caller makes. -/
def CallsOwn (c : Cluster) : Prop :=
  ∀ time (a : Store.Access) (caller : Caller a) call answer,
    .landed time caller call answer ∈ c.background.landings → call = c.callOf caller

theorem CallsOwn.step {c : Cluster} (h : c.CallsOwn) (act : Act) : (c.step act).CallsOwn := by
  intro time a caller call answer hmem
  rw [callOf_eq_of_options (options_step c act)]
  rcases act.land_or with ⟨i, rfl⟩ | hne
  · rcases land_cases c i with heq | ⟨a', caller', failure, _, heq⟩
    · rw [Cluster.step, heq] at hmem
      exact h _ _ _ _ _ hmem
    · rw [Cluster.step, heq] at hmem
      rcases List.mem_cons.1 hmem with hnew | hold
      · cases hnew
        rfl
      · exact h _ _ _ _ _ hold
  · rw [background_step c act hne] at hmem
    exact h _ _ _ _ _ hmem

theorem CallsOwn.run {c : Cluster} (h : c.CallsOwn) (acts : List Act) : (c.run acts).CallsOwn := by
  induction acts generalizing c with
  | nil => exact h
  | cons act acts ih => exact ih (h.step act)

end LeaseQueue.Cluster
