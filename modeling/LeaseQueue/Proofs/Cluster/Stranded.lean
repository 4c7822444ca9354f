import LeaseQueue.Proofs.Cluster.Rosters
import LeaseQueue.Proofs.Cluster.Trails

/-!
# What a stopped engine holds

An engine that is stopped has given up everything that it took: whatever was submitted is answered,
or carried by a loop.  There is one exception.  A start that fails leaves what was submitted
meanwhile in the buffer, where it stays while the engine is stopped:

  `(start.run acts).Released e`, or the last act that made the engine stopped `FailsStart`
-/

namespace LeaseQueue.Cluster

open Engine (Duty Roster StartMove)

/-- An engine that holds nothing back: what it took is carried by a loop, or answered. -/
structure Released (c : Cluster) (e : EngineId) : Prop where
  empty : (c.engines e).buffer = []
  places : ((c.inFlight e).map (·.ticket) ++ (c.settled e).map (·.ticket)).Perm
    ((c.accepted e).map (·.ticket))

/-- The store has answered the start of an engine, its own or that of its broker. -/
def StartAnswered (c : Cluster) (e : EngineId) (i : ProcId) {a : Store.Access}
    (point : Engine.Startup a) (answer : Store.Answer a) : Prop :=
  c.procs[i]? = some (.awaiting (.start e point) (.landed answer)) ∨
  ∃ (b : BrokerId) (now : Millis), e = .ofBroker b ∧
    c.procs[i]? = some (.awaiting (.broker b (.opening now point)) (.landed answer))

/-- The process will find that the start of the engine has failed. -/
structure FailsStart (c : Cluster) (e : EngineId) (i : ProcId) : Prop where
  starting : (c.engines e).phase = .starting
  failed : ∃ (a : Store.Access) (point : Engine.Startup a) (answer : Store.Answer a)
    (cause : Engine.Error), c.StartAnswered e i point answer ∧
    ((c.engines e).resumeStart point answer).2 = .done (.failed cause)

variable {c : Cluster} {e : EngineId} {i : ProcId}

/-- A process on duty as a start waits for the store, or its call is answered. -/
theorem startAnswered_of_duty {n : Nat} (h : c.duty e i = .start n) :
    c.proceed i = c ∨ ∃ (a : Store.Access) (point : Engine.Startup a) (answer : Store.Answer a),
      c.StartAnswered e i point answer := by
  have hon : c.duty e i ≠ .off := by
    rw [h]
    exact nofun
  obtain ⟨q, hq, hduty⟩ := exists_of_duty hon
  rw [h, eq_comm] at hduty
  have hite {p : Prop} [Decidable p] {d : Duty} (hd : (if p then d else .off) = .start n) :
      p ∧ d = .start n := (ite_off_iff (P := (· = .start n)) nofun).1 hd
  cases q with
  | awaiting caller flight =>
    cases flight with
    | sent failure =>
      left
      rw [proceed, hq]
    | landed answer =>
      right
      cases caller with
      | start d point =>
        obtain ⟨rfl, -⟩ := hite hduty
        exact ⟨_, point, answer, .inl hq⟩
      | broker b point =>
        cases point with
        | electing => cases hduty
        | opening now point =>
          obtain ⟨hb, -⟩ := hite hduty
          exact ⟨_, point, answer, .inr ⟨b, now, hb.symm, hq⟩⟩
      | commit d epoch point => cases (hite hduty).2
      | election | beat | client => cases hduty
  | loop d epoch pause => cases (hite hduty).2
  | registering | renewing | ended => cases hduty

theorem engines_followStart (move : Engine × Engine.Startup.Progress) :
    (c.followStart i e move).engines e = move.1 := by
  obtain ⟨engine, result | point⟩ := move
  · cases result <;> exact engines_setEngine_self ..
  · exact engines_setEngine_self ..

theorem phase_submit (m : Mutation) : ((c.submit e m).engines e).phase = (c.engines e).phase := by
  by_cases hphase : (c.engines e).phase = .stopped
  · have hroster := roster_submit_of_stopped m hphase
    exact congrArg (fun r : Roster => r.phase) hroster
  · have hroster := roster_submit_self m hphase
    exact congrArg (fun r : Roster => r.phase) hroster

theorem phase_followBroker {b : BrokerId} (o : Broker.Options) (now : Millis)
    (move : Engine × Engine.Startup.Progress) :
    ((c.followBroker i b (Broker.openEngine o now move)).engines (.ofBroker b)).phase =
      move.1.phase := by
  have hset : (c.setEngine (.ofBroker b) move.1).engines (.ofBroker b) = move.1 :=
    engines_setEngine_self ..
  obtain ⟨engine, result | point⟩ := move
  · cases result with
    | running epoch kick => exact (phase_submit _).trans (congrArg (·.phase) hset)
    | already | failed => exact congrArg (·.phase) hset
  · exact congrArg (·.phase) hset

theorem phase_proceed_of_startAnswered {a : Store.Access} {point : Engine.Startup a}
    {answer : Store.Answer a} (h : c.StartAnswered e i point answer) :
    ((c.proceed i).engines e).phase = ((c.engines e).resumeStart point answer).1.phase := by
  rcases h with hq | ⟨b, now, rfl, hq⟩
  · rw [proceed, hq]
    exact congrArg (·.phase) (engines_followStart _)
  · rw [proceed, hq]
    exact phase_followBroker _ now _

/-- Whoever makes an engine stopped by going on with its start finds that it has failed. -/
theorem failsStart_of_stops {n : Nat} (hduty : c.duty e i = .start n)
    (hstarting : (c.engines e).phase = .starting)
    (hstops : ((c.proceed i).engines e).phase = .stopped) : c.FailsStart e i := by
  refine ⟨hstarting, ?_⟩
  rcases startAnswered_of_duty hduty with heq | ⟨a, point, answer, hanswered⟩
  · rw [heq, hstarting] at hstops
    cases hstops
  · rw [phase_proceed_of_startAnswered hanswered] at hstops
    have hmove := Engine.resumeStart_move (c.engines e) point answer
    generalize hresume : (c.engines e).resumeStart point answer = move at hmove hstops
    cases hmove with
    | failed cause => exact ⟨a, point, answer, cause, hanswered, congrArg Prod.snd hresume⟩
    | waiting _ _ hcontrol =>
      have hphase := congrArg Engine.Control.phase hcontrol
      exact absurd (hphase.symm.trans hstops) (by rw [Engine.control, hstarting]; exact nofun)
    | running _ _ hcontrol =>
      have hphase := congrArg Engine.Control.phase hcontrol
      cases hphase.symm.trans hstops

theorem phase_land (i : ProcId) : ((c.land i).engines e).phase = (c.engines e).phase := by
  rcases land_cases c i with heq | ⟨a, caller, failure, -, heq⟩
  · rw [heq]
  · rw [heq]
    rfl

/-- A step after which a stopped engine holds something: it did so before, or a start fails. -/
theorem stranded_step (hwell : (c.roster e).WellFormed (c.engines e).options.maxRetries.toNat)
    {act : Act} (hstopped : ((c.step act).engines e).phase = .stopped)
    (hbuffer : ((c.step act).engines e).buffer ≠ []) :
    ((c.step act).engines e).buffer = (c.engines e).buffer ∧
      ((c.engines e).phase = .stopped ∨ ∃ i, act = .proceed i ∧ c.FailsStart e i) := by
  rcases step_or_begin (c := c) (e := e) act with hstep | ⟨-, i, hbegin⟩
  · obtain ⟨hkept, hbefore⟩ := hstep.buffer_of_stopped hstopped hbuffer
    refine ⟨hkept, hbefore.imp_right ?_⟩
    rintro ⟨i, hactor, hduty⟩
    have hstarting : (c.engines e).phase = .starting := hwell.starting i hduty
    cases act with
    | land j =>
      rw [step, phase_land, hstarting] at hstopped
      cases hstopped
    | proceed j =>
      obtain rfl := Option.some.inj hactor
      exact ⟨j, rfl, failsStart_of_stops hduty hstarting hstopped⟩
    | setClock | setMemory | submit | startEngine | stopEngine | elect | call | startBroker | beat
    | stopBroker => cases hactor
  · have hphase : ((c.step act).roster e).phase = .starting := by
      generalize (c.step act).roster e = r at hbegin
      cases hbegin
      rfl
    cases hphase.symm.trans hstopped

/-! ## Runs -/

/-- The engine has been stopped, with the same buffer, since a start of it failed. -/
structure StrandedSince (start : Cluster) (e : EngineId) (before : List Act) (i : ProcId)
    (after : List Act) : Prop where
  fails : (start.run before).FailsStart e i
  since : ∀ more, more <+: after →
    ((start.run (before ++ .proceed i :: more)).engines e).phase = .stopped ∧
    ((start.run (before ++ .proceed i :: more)).engines e).buffer =
      ((start.run before).engines e).buffer

theorem StrandedSince.concat {start : Cluster} {before after : List Act} {act : Act}
    (h : StrandedSince start e before i after) :
    let c := start.run (before ++ .proceed i :: after)
    ((c.step act).engines e).phase = .stopped →
    ((c.step act).engines e).buffer = (c.engines e).buffer →
    StrandedSince start e before i (after ++ [act]) := by
  intro c hstopped hkept
  refine ⟨h.fails, ?_⟩
  intro more hmore
  rcases List.prefix_concat_iff.1 hmore with rfl | hold
  · rw [← List.cons_append, ← List.append_assoc, run_concat]
    exact ⟨hstopped, hkept.trans (h.since after (List.prefix_refl after)).2⟩
  · exact h.since more hold

section Runs

variable {engines : Nat → Engine.Options} {brokers : BrokerId → Broker.Options}
  {memory : Store.Memory} {ids : IdSupply} {clock : Millis}

theorem strandedSince_of_stopped (acts : List Act) :
    let start := init engines brokers memory ids clock
    ((start.run acts).engines e).phase = .stopped → ((start.run acts).engines e).buffer ≠ [] →
    ∃ before i after, acts = before ++ .proceed i :: after ∧
      StrandedSince start e before i after := by
  intro start
  induction acts using List.reverseRecOn with
  | nil =>
    intro _ hbuffer
    have hempty : (start.engines e).buffer = [] := by cases e <;> rfl
    exact absurd hempty hbuffer
  | append_singleton acts act ih =>
    rw [run_concat]
    intro hstopped hbuffer
    obtain ⟨hkept, hbefore | ⟨i, rfl, hfails⟩⟩ :=
      stranded_step (wellFormed_run_init _ _ _ _ _ acts e) hstopped hbuffer
    · obtain ⟨before, i, after, rfl, hsince⟩ := ih hbefore (hkept ▸ hbuffer)
      exact ⟨before, i, after ++ [act], by simp, hsince.concat hstopped hkept⟩
    · refine ⟨acts, i, [], rfl, hfails, ?_⟩
      intro more hmore
      obtain rfl := List.prefix_nil.1 hmore
      rw [run_concat]
      exact ⟨hstopped, hkept⟩

/-- **A stopped engine holds nobody back**, unless a start of it has failed: what was submitted
meanwhile then stays where it is, as long as the engine is stopped. -/
theorem released_or_stranded (engines : Nat → Engine.Options) (brokers : BrokerId → Broker.Options)
    (memory : Store.Memory) (ids : IdSupply) (clock : Millis) (acts : List Act) (e : EngineId) :
    let start := init engines brokers memory ids clock
    ((start.run acts).engines e).phase = .stopped →
    (start.run acts).Released e ∨
    ∃ before i after, acts = before ++ .proceed i :: after ∧
      StrandedSince start e before i after := by
  intro start hstopped
  by_cases hbuffer : ((start.run acts).engines e).buffer = []
  · refine .inl ⟨hbuffer, ?_⟩
    have hplaces := (sound_run engines brokers memory ids clock acts e).places
    have hempty : (((start.run acts).ledger e).buffer) = [] := hbuffer
    rw [hempty] at hplaces
    exact hplaces
  · exact .inr (strandedSince_of_stopped acts hstopped hbuffer)

end Runs

/-- An engine that is stopped while it starts answers what was submitted. -/
theorem released_after_stop :
    let e : EngineId := .lone 0
    let acts : List Act := [.startEngine e, .submit e (.complete "a" "w"), .stopEngine e]
    ((blank.run acts).engines e).phase = .stopped ∧
    ((blank.run acts).settled e).map (·.ticket) = [0] ∧
    ((blank.run acts).Released e ∨ ∃ before i after, acts = before ++ .proceed i :: after ∧
      StrandedSince blank e before i after) := by
  intro e acts
  have hstopped : ((blank.run acts).engines e).phase = .stopped := by decide +kernel
  have hsettled : ((blank.run acts).settled e).map (·.ticket) = [0] := by decide +kernel
  exact ⟨hstopped, hsettled, released_or_stranded _ _ _ _ _ acts e hstopped⟩

/-- What was submitted while an engine was starting is left in the buffer when the start fails. -/
theorem stranded_by_failed_start :
    let e : EngineId := .lone 0
    let c := blank.run [.setMemory ⟨0, some (.backend "memory" "create" "unavailable")⟩,
      .startEngine e, .submit e (.complete "a" "w"), .land 0, .proceed 0]
    (c.engines e).phase = .stopped ∧ (c.engines e).buffer.map (·.ticket) = [0] ∧
    (c.accepted e).map (·.ticket) = [0] ∧ (c.settled e).map (·.ticket) = [] ∧
    ¬ c.Released e := by
  intro e c
  have hbuffer : (c.engines e).buffer.map (·.ticket) = [0] := by decide +kernel
  refine ⟨by decide +kernel, hbuffer, by decide +kernel, by decide +kernel, ?_⟩
  intro hreleased
  rw [hreleased.empty] at hbuffer
  cases hbuffer

end LeaseQueue.Cluster
