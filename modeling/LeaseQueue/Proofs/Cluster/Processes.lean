import LeaseQueue.Proofs.Cluster.Ledgers

/-!
# What becomes of processes

A process moves when its call takes effect and when it is told to proceed; nobody else moves it.  No
process ever vanishes, and new ones come last:

  `(c.step act).procs = c.moved act ++ c.newcomers act`

So a process that stands somewhere after a step stood there before, or landed, or went on, or is new
(`ProcStep`).
-/

namespace LeaseQueue.Cluster

/-! ## Where processes go -/

/-- A process that has just made its call. -/
def sending (c : Cluster) {a : Store.Access} (caller : Caller a) : Proc :=
  .awaiting caller (.sent c.memory.options.failure)

/-- A loop at its next step. -/
def looping (c : Cluster) (e : EngineId) (epoch : Nat) : Engine.LoopStep → Proc
  | .rest => .loop e epoch .resting
  | .giveWay => .loop e epoch .givingWay
  | .commit point => c.sending (.commit e epoch point)
  | .backOff pass _ => .loop e epoch (.backingOff pass)
  | .leave => .ended

/-- What a loop does after a pause. -/
def afterPause (c : Cluster) (e : EngineId) (epoch : Nat) : Pause → Engine.LoopStep
  | .entering => (c.engines e).enterLoop epoch
  | .resting => (c.engines e).wakeLoop epoch
  | .givingWay => ((c.engines e).drain epoch c.clock c.ids).next
  | .backingOff pass => ((c.engines e).attempt pass c.clock c.ids).next

/-- A broker's start at its next step. -/
def brokering (c : Cluster) (b : BrokerId) : Broker.StartStep → Proc
  | .waiting point => c.sending (.broker b point)
  | .register _ _ _ => .registering b c.tickets
  | .failed _ => .ended

/-- A caller that has been answered. -/
def resumed (c : Cluster) {a : Store.Access} (caller : Caller a) (answer : Store.Answer a) : Proc :=
  match caller, answer with
  | .start e point, answer =>
    match ((c.engines e).resumeStart point answer).2 with
    | .waiting point => c.sending (.start e point)
    | .done _ => .ended
  | .commit e epoch point, answer =>
    c.looping e epoch ((c.engines e).resumeCommit epoch c.clock c.ids point answer).next
  | .election election attempt, answer =>
    match election.resume attempt answer with
    | .waiting attempt => c.sending (.election election attempt)
    | .done _ => .ended
  | .broker b point, answer =>
    c.brokering b
      (Broker.resumeStart (c.seats b).options (c.engines (.ofBroker b)) point answer).2
  | .beat b own, answer =>
    match Broker.heartbeat (c.seats b).options c.clock answer with
    | .done _ => .ended
    | .renew _ => .renewing b own c.tickets
  | .client _, _ => .ended

/-- A process that was told to proceed. -/
def onward (c : Cluster) : Proc → Proc
  | .awaiting caller (.landed answer) => c.resumed caller answer
  | .loop e epoch pause => c.looping e epoch (c.afterPause e epoch pause)
  | .registering b ticket => if (c.verdict? ticket).isSome then .ended else .registering b ticket
  | .renewing b own ticket => if (c.verdict? ticket).isSome then .ended else .renewing b own ticket
  | .awaiting caller (.sent failure) => .awaiting caller (.sent failure)
  | .ended => .ended

/-- The loop that a process leaves behind when it comes to the end of a start. -/
def offspring (c : Cluster) : Proc → List Proc
  | .awaiting (.start e point) (.landed answer) =>
    match ((c.engines e).resumeStart point answer).2 with
    | .done (.running epoch _) => [.loop e epoch .entering]
    | _ => []
  | .awaiting (.broker b point) (.landed answer) =>
    match (Broker.resumeStart (c.seats b).options (c.engines (.ofBroker b)) point answer).2 with
    | .register epoch _ _ => [.loop (.ofBroker b) epoch .entering]
    | _ => []
  | _ => []

/-- A start of an engine, as far as it comes at once. -/
def opening (c : Cluster) (e : EngineId) : Proc :=
  match (c.engines e).start.2 with
  | .waiting point => c.sending (.start e point)
  | .done _ => .ended

def newcomers (c : Cluster) : Act → List Proc
  | .startEngine e => if c.isOpen e then [c.opening e] else []
  | .elect election now => [c.sending (.election election (.looking now))]
  | .call call => [c.sending (.client call)]
  | .startBroker b =>
    match (c.seats b).reign with
    | .unclaimed => [c.sending (.broker b (Broker.begin c.clock))]
    | _ => []
  | .beat b own =>
    match (c.seats b).reign with
    | .begun _ => [c.sending (.beat b own)]
    | _ => []
  | .proceed i => c.procs[i]?.elim [] c.offspring
  | _ => []

def moved (c : Cluster) : Act → List Proc
  | .land i =>
    match c.procs[i]? with
    | some (.awaiting caller (.sent failure)) =>
      c.procs.set i (.awaiting caller (.landed (c.memory.finish ⟨c.callOf caller, failure⟩).1))
    | _ => c.procs
  | .proceed i => c.procs[i]?.elim c.procs fun p => c.procs.set i (c.onward p)
  | _ => c.procs

/-- What has become of a process. -/
inductive ProcStep (c : Cluster) (act : Act) (j : ProcId) (q : Proc) : Prop where
  | stays (h : c.procs[j]? = some q)
  | lands {a : Store.Access} {caller : Caller a} {failure : Option Store.Error}
    (hact : act = .land j) (hold : c.procs[j]? = some (.awaiting caller (.sent failure)))
    (hq : q = .awaiting caller (.landed (c.memory.finish ⟨c.callOf caller, failure⟩).1))
  | goesOn {p : Proc} (hact : act = .proceed j) (hold : c.procs[j]? = some p)
    (hq : q = c.onward p)
  | comes (hnew : c.procs.length ≤ j) (hq : q ∈ c.newcomers act)

variable {c : Cluster} {i j : ProcId} {e : EngineId} {b : BrokerId} {p q : Proc}

/-! ## Parts of a step -/

theorem accept_failure (m : Store.Memory) {a : Store.Access} (call : Store.Call a) :
    (m.accept call).2.failure = m.options.failure := by
  cases call <;> rfl

theorem procs_launch {a : Store.Access} (caller : Caller a) :
    (c.launch i caller).procs = c.procs.set i (c.sending caller) := by
  rw [sending, ← accept_failure c.memory (c.callOf caller)]
  rfl

theorem procs_begin {a : Store.Access} (caller : Caller a) :
    (c.begin caller).procs = c.procs ++ [c.sending caller] := by
  rw [Cluster.begin, procs_launch]
  exact List.set_append_right _ _ (Nat.le_refl _) |>.trans (by rw [Nat.sub_self]; rfl)

theorem procs_stopEngine : (c.stopEngine e).procs = c.procs := by
  unfold stopEngine
  split <;> rfl

theorem procs_stopBroker : (c.stopBroker b).procs = c.procs := by
  unfold stopBroker
  split
  · exact procs_stopEngine
  · rfl

theorem noteBatch_fields :
    (c.noteBatch e).procs = c.procs ∧ (c.noteBatch e).memory = c.memory ∧
      (c.noteBatch e).clock = c.clock ∧ (c.noteBatch e).ids = c.ids := by
  unfold noteBatch
  split <;> exact ⟨rfl, rfl, rfl, rfl⟩

theorem procs_followLoop (epoch : Nat) (next : Engine.LoopStep) :
    (c.followLoop i e epoch next).procs = c.procs.set i (c.looping e epoch next) := by
  cases next with
  | commit point => exact procs_launch _
  | rest | giveWay | backOff | leave => rfl

theorem procs_followMove (epoch : Nat) (move : Engine.LoopMove) :
    (c.followMove i e epoch move).procs = c.procs.set i (c.looping e epoch move.next) := by
  let settled := ((c.setEngine e move.engine).setIds move.ids).settle e move.settled
  exact procs_followLoop (c := settled) epoch move.next

theorem procs_stepLoop (epoch : Nat) (pause : Pause) :
    (c.stepLoop i e epoch pause).procs =
      c.procs.set i (c.looping e epoch (c.afterPause e epoch pause)) := by
  cases pause with
  | entering => exact procs_followLoop _ _
  | resting => exact procs_followLoop _ _
  | givingWay =>
    obtain ⟨hprocs, hmemory, -, -⟩ := noteBatch_fields (c := c) (e := e)
    rw [stepLoop, procs_followMove, hprocs]
    have hlooping (next : Engine.LoopStep) :
        (c.noteBatch e).looping e epoch next = c.looping e epoch next := by
      cases next with
      | commit point => rw [looping, looping, sending, sending, hmemory]
      | rest | giveWay | backOff | leave => rfl
    rw [hlooping]
    rfl
  | backingOff pass => exact procs_followMove _ _

theorem procs_finishBeat (own : Bool) (result : Except Broker.Error Bool) :
    (c.finishBeat i b own result).procs = c.procs.set i .ended := by
  fun_cases finishBeat c i b own result
  · exact procs_stopBroker
  · rfl

theorem procs_enthrone (verdict : Engine.Verdict) :
    (c.enthrone i b verdict).procs = c.procs.set i .ended := by
  cases verdict with
  | ok result => rfl
  | error cause => exact procs_stopEngine

/-! ## Going on -/

theorem procs_followStart (move : Engine × Engine.Startup.Progress) :
    (c.followStart i e move).procs = match move.2 with
      | .waiting point => c.procs.set i (c.sending (.start e point))
      | .done (.running epoch _) => c.procs.set i .ended ++ [.loop e epoch .entering]
      | .done _ => c.procs.set i .ended := by
  obtain ⟨engine, result | point⟩ := move
  · cases result <;> rfl
  · exact procs_launch (c := c.setEngine e engine) _

theorem procs_resumeStart {a : Store.Access} (point : Engine.Startup a) (answer : Store.Answer a) :
    (c.followStart i e ((c.engines e).resumeStart point answer)).procs =
      c.procs.set i (c.resumed (.start e point) answer) ++
        c.offspring (.awaiting (.start e point) (.landed answer)) := by
  rw [procs_followStart, resumed, offspring]
  generalize ((c.engines e).resumeStart point answer).2 = progress
  cases progress with
  | waiting point => exact (List.append_nil _).symm
  | done result =>
    cases result with
    | running => rfl
    | already | failed => exact (List.append_nil _).symm

theorem procs_followBroker (hi : i < c.procs.length) (move : Engine × Broker.StartStep) :
    (c.followBroker i b move).procs = c.procs.set i (c.brokering b move.2) ++ match move.2 with
      | .register epoch _ _ => [.loop (.ofBroker b) epoch .entering]
      | _ => [] := by
  obtain ⟨engine, point | ⟨epoch, kick, m⟩ | cause⟩ := move
  · exact (procs_launch (c := c.setEngine (.ofBroker b) engine) _).trans (List.append_nil _).symm
  · let spawned := (c.setEngine (.ofBroker b) engine).spawn (.loop (.ofBroker b) epoch .entering)
    show (spawned.submit (.ofBroker b) m).procs.set i _ = _
    rw [procs_submit]
    exact List.set_append_left _ _ hi
  · exact (List.append_nil _).symm

theorem procs_resumeBroker (hi : i < c.procs.length) {a : Store.Access} (point : Broker.Startup a)
    (answer : Store.Answer a) :
    (c.resume i (.broker b point) answer).procs =
      c.procs.set i (c.resumed (.broker b point) answer) ++
        c.offspring (.awaiting (.broker b point) (.landed answer)) := by
  have hcrown (d : Option Document) : (c.crown b d).procs = c.procs ∧
      ∀ next, (c.crown b d).brokering b next = c.brokering b next := by
    cases d <;> exact ⟨rfl, fun next => rfl⟩
  obtain ⟨hprocs, hbrokering⟩ := hcrown (crown? (c.seats b).options point answer)
  rw [resume, procs_followBroker (hprocs ▸ hi), hprocs, hbrokering]
  rfl

theorem procs_resume (hi : i < c.procs.length) {a : Store.Access} (caller : Caller a)
    (answer : Store.Answer a) :
    (c.resume i caller answer).procs =
      c.procs.set i (c.resumed caller answer) ++ c.offspring (.awaiting caller (.landed answer)) := by
  cases caller with
  | start e point => exact procs_resumeStart point answer
  | broker b point => exact procs_resumeBroker hi point answer
  | commit e epoch point => exact (procs_followMove _ _).trans (List.append_nil _).symm
  | election election attempt =>
    rw [resume, resumed]
    refine Eq.trans ?_ (List.append_nil _).symm
    cases election.resume attempt answer with
    | waiting attempt => exact procs_launch _
    | done outcome => rfl
  | beat b own =>
    rw [resume, resumed]
    refine Eq.trans ?_ (List.append_nil _).symm
    cases Broker.heartbeat (c.seats b).options c.clock answer with
    | done result => exact procs_finishBeat own result
    | renew renewal => exact congrArg (List.set · i _) (procs_submit renewal)
  | client call => exact (List.append_nil _).symm

theorem procs_proceed (hp : c.procs[i]? = some p) :
    (c.proceed i).procs = c.procs.set i (c.onward p) ++ c.offspring p := by
  obtain ⟨hi, hget⟩ := List.getElem?_eq_some_iff.1 hp
  have hsame : c.procs = c.procs.set i p ++ [] := by
    rw [← hget, List.set_getElem_self, List.append_nil]
  rw [proceed, hp]
  cases p with
  | awaiting caller flight =>
    cases flight with
    | sent failure =>
      have hnone : c.offspring (.awaiting caller (.sent failure)) = [] := by cases caller <;> rfl
      rw [hnone]
      exact hsame
    | landed answer => exact procs_resume hi caller answer
  | loop e epoch pause => exact (procs_stepLoop _ _).trans (List.append_nil _).symm
  | registering b ticket =>
    rw [onward]
    dsimp only
    cases hverdict : c.verdict? ticket with
    | none => exact hsame
    | some verdict => exact (procs_enthrone verdict).trans (List.append_nil _).symm
  | renewing b own ticket =>
    rw [onward]
    dsimp only
    cases hverdict : c.verdict? ticket with
    | none => exact hsame
    | some verdict => exact (procs_finishBeat own _).trans (List.append_nil _).symm
  | ended => exact hsame

/-! ## Every step -/

theorem start_ne_running (engine : Engine) (epoch : Nat) (kick : Bool) :
    engine.start.2 ≠ .done (.running epoch kick) := by
  unfold Engine.start
  split <;> exact nofun

theorem procs_startEngine : (c.startEngine e).procs = c.procs ++ [c.opening e] := by
  have hset (p : Proc) : (c.procs ++ [Proc.ended]).set c.procs.length p = c.procs ++ [p] :=
    (List.set_append_right _ _ (Nat.le_refl _)).trans (by rw [Nat.sub_self]; rfl)
  rw [startEngine, procs_followStart, opening]
  have hrunning := start_ne_running (c.engines e)
  generalize (c.engines e).start.2 = progress at hrunning
  cases progress with
  | waiting point => exact hset _
  | done result =>
    cases result with
    | running epoch kick => exact absurd rfl (hrunning epoch kick)
    | already | failed => exact hset _

/-- **What processes there are after a step**: one of them has moved, and new ones came last. -/
theorem procs_step (act : Act) : (c.step act).procs = c.moved act ++ c.newcomers act := by
  cases act with
  | setClock | setMemory => exact (List.append_nil _).symm
  | submit e m =>
    rw [step]
    split
    · exact (procs_submit m).trans (List.append_nil _).symm
    · exact (List.append_nil _).symm
  | startEngine e =>
    rw [step, newcomers]
    split
    · exact procs_startEngine
    · exact (List.append_nil _).symm
  | stopEngine e =>
    rw [step]
    split
    · exact procs_stopEngine.trans (List.append_nil _).symm
    · exact (List.append_nil _).symm
  | elect election now => exact procs_begin (c := c.record (.stood election now)) _
  | call call => exact procs_begin _
  | startBroker b =>
    rw [step, startBroker, newcomers]
    cases (c.seats b).reign with
    | unclaimed => exact procs_begin _
    | starting | begun | failed => exact (List.append_nil _).symm
  | beat b own =>
    rw [step, beat, newcomers]
    cases (c.seats b).reign with
    | begun broker => exact procs_begin _
    | unclaimed | starting | failed => exact (List.append_nil _).symm
  | stopBroker b => exact procs_stopBroker.trans (List.append_nil _).symm
  | land i =>
    refine Eq.trans ?_ (List.append_nil _).symm
    rw [step, land, moved]
    cases c.procs[i]? with
    | none => rfl
    | some p =>
      cases p with
      | awaiting caller flight => cases flight <;> rfl
      | loop | registering | renewing | ended => rfl
  | proceed i =>
    rw [step, moved, newcomers]
    cases hp : c.procs[i]? with
    | none =>
      rw [proceed, hp]
      exact (List.append_nil _).symm
    | some p => exact procs_proceed hp

theorem procStep_of_moved {act : Act} (hq : (c.moved act)[j]? = some q) : c.ProcStep act j q := by
  cases act with
  | land i =>
    rw [moved] at hq
    split at hq
    next a caller failure hold =>
      rcases getElem?_procs_set hq with ⟨rfl, rfl⟩ | hstays
      · exact .lands rfl hold rfl
      · exact .stays hstays
    · exact .stays hq
  | proceed i =>
    rw [moved] at hq
    cases hold : c.procs[i]? with
    | none =>
      rw [hold] at hq
      exact .stays hq
    | some p =>
      rw [hold] at hq
      rcases getElem?_procs_set hq with ⟨rfl, rfl⟩ | hstays
      · exact .goesOn rfl hold rfl
      · exact .stays hstays
  | setClock | setMemory | submit | startEngine | stopEngine | elect | call | startBroker | beat
  | stopBroker => exact .stays hq

theorem length_moved (act : Act) : (c.moved act).length = c.procs.length := by
  cases act with
  | land i =>
    rw [moved]
    split
    · exact List.length_set
    · rfl
  | proceed i =>
    rw [moved]
    cases c.procs[i]? with
    | none => rfl
    | some p => exact List.length_set
  | setClock | setMemory | submit | startEngine | stopEngine | elect | call | startBroker | beat
  | stopBroker => rfl

theorem length_le_step (act : Act) : c.procs.length ≤ (c.step act).procs.length := by
  rw [procs_step, List.length_append, length_moved]
  exact Nat.le_add_right _ _

/-- **Where a process can be after a step.** -/
theorem procStep {act : Act} (hq : (c.step act).procs[j]? = some q) : c.ProcStep act j q := by
  rw [procs_step] at hq
  by_cases hj : j < (c.moved act).length
  · exact procStep_of_moved ((List.getElem?_append_left hj).symm.trans hq)
  · have hle := Nat.le_of_not_lt hj
    rw [List.getElem?_append_right hle] at hq
    exact .comes (length_moved act ▸ hle) (List.mem_of_getElem? hq)

/-- Whoever has an answer keeps it until it is told to proceed. -/
theorem getElem?_step_of_landed {act : Act} {a : Store.Access} {caller : Caller a}
    {answer : Store.Answer a} (hq : c.procs[j]? = some (.awaiting caller (.landed answer)))
    (hne : act ≠ .proceed j) :
    (c.step act).procs[j]? = some (.awaiting caller (.landed answer)) := by
  obtain ⟨hj, -⟩ := List.getElem?_eq_some_iff.1 hq
  rw [procs_step, List.getElem?_append_left (length_moved (c := c) act ▸ hj)]
  cases act with
  | land i =>
    rw [moved]
    split
    next a' caller' failure hsent =>
      have hij : i ≠ j := by
        rintro rfl
        cases hq.symm.trans hsent
      exact (List.getElem?_set_ne hij).trans hq
    · exact hq
  | proceed i =>
    rw [moved]
    have hij : i ≠ j := fun heq => hne (congrArg Act.proceed heq)
    cases c.procs[i]? with
    | none => exact hq
    | some p => exact (List.getElem?_set_ne hij).trans hq
  | setClock | setMemory | submit | startEngine | stopEngine | elect | call | startBroker | beat
  | stopBroker => exact hq

theorem getElem?_of_procs_eq_nil (h : c.procs = []) : c.procs[i]? = none := by
  rw [h, List.getElem?_nil]

/-! ## Calls on their way, and answered -/

theorem looping_ne_landed {epoch : Nat} {next : Engine.LoopStep} {a : Store.Access}
    {caller : Caller a} {answer : Store.Answer a} :
    c.looping e epoch next ≠ .awaiting caller (.landed answer) := by
  cases next <;> exact nofun

theorem brokering_ne_landed {next : Broker.StartStep} {a : Store.Access} {caller : Caller a}
    {answer : Store.Answer a} : c.brokering b next ≠ .awaiting caller (.landed answer) := by
  cases next <;> exact nofun

/-- Nobody has an answer by going on. -/
theorem onward_ne_landed {a : Store.Access} {caller : Caller a} {answer : Store.Answer a} :
    c.onward p ≠ .awaiting caller (.landed answer) := by
  fun_cases onward c p
  case case1 b caller' answer' =>
    fun_cases resumed c caller' answer'
    case case3 => exact looping_ne_landed
    case case6 => exact brokering_ne_landed
    all_goals exact nofun
  case case2 => exact looping_ne_landed
  all_goals exact nofun

theorem eq_loop_of_mem_offspring (h : q ∈ c.offspring p) :
    ∃ e epoch, q = .loop e epoch .entering := by
  revert h
  fun_cases offspring c p
  case case1 | case3 =>
    intro h
    exact ⟨_, _, List.mem_singleton.1 h⟩
  all_goals exact nofun

/-- The first call of whoever makes it. -/
inductive Caller.Begins : {a : Store.Access} → Caller a → Prop where
  | start (e : EngineId) {a : Store.Access} (point : Engine.Startup a) : Begins (.start e point)
  | election (election : Election) (now : Millis) : Begins (.election election (.looking now))
  | broker (b : BrokerId) (now : Millis) : Begins (.broker b (Broker.begin now))
  | beat (b : BrokerId) (own : Bool) : Begins (.beat b own)
  | client {a : Store.Access} (call : Store.Call a) : Begins (.client call)

/-- A new process makes its first call, or runs a loop, or had nothing to do. -/
theorem newcomer_cases {act : Act} (h : q ∈ c.newcomers act) :
    q = .ended ∨ (∃ e epoch, q = .loop e epoch .entering) ∨
      ∃ (a : Store.Access) (caller : Caller a), q = c.sending caller ∧ caller.Begins := by
  cases act with
  | startEngine e =>
    rw [newcomers, opening] at h
    split at h
    · have heq := List.mem_singleton.1 h
      split at heq
      · exact .inr (.inr ⟨_, _, heq, .start e _⟩)
      · exact .inl heq
    · cases h
  | elect election now => exact .inr (.inr ⟨_, _, List.mem_singleton.1 h, .election election now⟩)
  | call call => exact .inr (.inr ⟨_, _, List.mem_singleton.1 h, .client call⟩)
  | startBroker b =>
    rw [newcomers] at h
    split at h
    · exact .inr (.inr ⟨_, _, List.mem_singleton.1 h, .broker b c.clock⟩)
    · cases h
  | beat b own =>
    rw [newcomers] at h
    split at h
    · exact .inr (.inr ⟨_, _, List.mem_singleton.1 h, .beat b own⟩)
    · cases h
  | proceed i =>
    rw [newcomers] at h
    cases hp : c.procs[i]? with
    | none =>
      rw [hp] at h
      cases h
    | some p =>
      rw [hp] at h
      exact .inr (.inl (eq_loop_of_mem_offspring h))
  | setClock | setMemory | submit | stopEngine | stopBroker | land => cases h

theorem newcomer_ne_landed {act : Act} {a : Store.Access} {caller : Caller a}
    {answer : Store.Answer a} : .awaiting caller (.landed answer) ∉ c.newcomers act := by
  intro hmem
  rcases newcomer_cases hmem with heq | ⟨e, epoch, heq⟩ | ⟨a', caller', heq, -⟩ <;> cases heq

/-- An answer has been there before, or the call has just taken effect. -/
theorem landed_cases {act : Act} {a : Store.Access} {caller : Caller a} {answer : Store.Answer a}
    (hq : (c.step act).procs[j]? = some (.awaiting caller (.landed answer))) :
    c.procs[j]? = some (.awaiting caller (.landed answer)) ∨
      ∃ failure, act = .land j ∧ c.procs[j]? = some (.awaiting caller (.sent failure)) ∧
        answer = (c.memory.finish ⟨c.callOf caller, failure⟩).1 := by
  cases procStep hq with
  | stays h => exact .inl h
  | lands hact hold hlanded =>
    cases hlanded
    exact .inr ⟨_, hact, hold, rfl⟩
  | goesOn hact hold honward => exact absurd honward.symm onward_ne_landed
  | comes hnew hmem => exact absurd hmem newcomer_ne_landed

end LeaseQueue.Cluster
