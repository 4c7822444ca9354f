import LeaseQueue.Proofs.Cluster.Ages
import LeaseQueue.Proofs.Cluster.Phases

/-!
# What a successful start is worth

A start that made it has seen to the document, and the engine runs from then on until it is stopped.
The same is true if the engine was running already.  But a start that finds the engine starting
returns at once, and relies on another start that may still fail:

  `(c.step act).OpenUntilStopped e`, or `c` finds the engine starting
-/

namespace LeaseQueue

/-- The call was a success. -/
def Engine.StartResult.isOk : Engine.StartResult → Bool
  | .already | .running _ _ => true
  | .failed _ => false

namespace Cluster

/-- There is an object under the key of the engine. -/
def HasDocument (c : Cluster) (e : EngineId) : Prop :=
  ∃ entry, c.memory.entry? (c.engines e).options.stateKey = some entry

/-- The document is there, and the engine runs until somebody stops it. -/
structure OpenUntilStopped (c : Cluster) (e : EngineId) : Prop where
  document : c.HasDocument e
  runs : ∀ acts, (∀ m ∈ c.trail acts, ¬ m.before.Stops e m.act) →
    ((c.run acts).engines e).phase = .running ∧ (c.run acts).HasDocument e

/-- Whoever runs, or has been told that the document is there, is right. -/
structure Grounded (c : Cluster) (e : EngineId) : Prop where
  running : (c.engines e).phase = .running → c.HasDocument e
  ensured : ∀ i (a : Store.Access) (point : Engine.Startup a) (answer : Store.Answer a),
    c.StartAnswered e i point answer → point.Ensures (c.engines e).options.stateKey answer →
    c.HasDocument e

variable {c : Cluster} {e : EngineId} {i : ProcId} {act : Act}

/-! ## Documents -/

theorem HasDocument.mono {c' : Cluster} (h : c.HasDocument e) (hages : c.memory.Ages c'.memory)
    (hoptions : c'.options = c.options) : c'.HasDocument e := by
  obtain ⟨entry, hentry⟩ := h
  rw [HasDocument, engine_options_eq hoptions]
  exact hages.remains hentry

theorem HasDocument.step (h : c.HasDocument e) (act : Act) : (c.step act).HasDocument e :=
  h.mono (ages_step act) (options_step c act)

theorem HasDocument.run (h : c.HasDocument e) (acts : List Act) : (c.run acts).HasDocument e :=
  h.mono (ages_run acts) (options_run c acts)

/-- The call of a start brings the good news only if it is true. -/
theorem hasDocument_of_lands {a : Store.Access} {caller : Caller a} {point : Engine.Startup a}
    {failure : Option Store.Error} (hq : c.procs[i]? = some (.awaiting caller (.sent failure)))
    (hcall : c.callOf caller = point.call (c.engines e).options)
    (hensures : point.Ensures (c.engines e).options.stateKey
      (c.memory.finish ⟨c.callOf caller, failure⟩).1) : (c.step (.land i)).HasDocument e := by
  cases point with
  | creating epoch =>
    obtain ⟨token, hok⟩ := hensures
    have hputs : Moment.Puts ⟨c, .land i⟩ i caller token := ⟨rfl, failure, hq, hok⟩
    have hkey : (c.callOf caller).key = (c.engines e).options.stateKey := by
      rw [hcall]
      rfl
    rw [HasDocument, engine_options_eq (options_step c _)]
    exact ⟨_, (hputs.lookup.2.2 _).trans (if_pos hkey.symm)⟩
  | reading epoch =>
    obtain ⟨cached, hreceived⟩ := hensures
    obtain ⟨object, hobject, -⟩ := Engine.received_eq_ok hreceived
    have hread : (c.memory.finish ⟨.read (c.engines e).options.stateKey, failure⟩).1 =
        .ok (some object) := by
      rw [← hobject, hcall]
      rfl
    obtain ⟨entry, hentry, -⟩ := (c.memory.finish_read _ failure).2 object hread
    have hdocument : c.HasDocument e := ⟨entry, hentry⟩
    exact hdocument.step _

/-! ## Starts that made it -/

theorem ensures_of_running {engine : Engine} {a : Store.Access} {point : Engine.Startup a}
    {answer : Store.Answer a} {epoch : Nat} {kick : Bool}
    (h : (engine.resumeStart point answer).2 = .done (.running epoch kick)) :
    point.Ensures engine.options.stateKey answer := by
  revert h
  fun_cases Engine.resumeStart engine point answer
  case case1 token => exact fun _ => ⟨token, rfl⟩
  case case4 epoch cached answer hcached => exact fun _ => ⟨cached, hcached⟩
  all_goals
    intro h
    cases h

theorem running_of_resumeStart {engine : Engine} {a : Store.Access} {point : Engine.Startup a}
    {answer : Store.Answer a} (h : (engine.resumeStart point answer).1.phase = .running) :
    engine.phase = .running ∨ point.Ensures engine.options.stateKey answer := by
  have hensures (epoch : Nat) (kick : Bool) :
      (engine.resumeStart point answer).2 = .done (.running epoch kick) →
        point.Ensures engine.options.stateKey answer := ensures_of_running
  have hmove := engine.resumeStart_move point answer
  generalize engine.resumeStart point answer = move at h hmove hensures
  cases hmove with
  | waiting _ _ hcontrol => exact .inl ((congrArg Engine.Control.phase hcontrol).symm.trans h)
  | running => exact .inr (hensures _ _ rfl)
  | failed _ hcontrol =>
    have hphase := (congrArg Engine.Control.phase hcontrol).symm.trans h
    dsimp only at hphase
    split at hphase
    · cases hphase
    · exact .inl hphase

theorem Grounded.running_step (h : c.Grounded e)
    (hrunning : ((c.step act).engines e).phase = .running) : (c.step act).HasDocument e := by
  refine HasDocument.step ?_ act
  cases lifeStep (c := c) (e := e) act with
  | stays hphase => exact h.running (hphase.symm.trans hrunning)
  | opens _ _ hphase => cases hphase.symm.trans hrunning
  | stops _ hphase => cases hphase.symm.trans hrunning
  | starts _ hanswered hphase =>
    rcases running_of_resumeStart (hphase.symm.trans hrunning) with hbefore | hensures
    · exact h.running hbefore
    · exact h.ensured _ _ _ _ hanswered hensures

theorem Grounded.step (h : c.Grounded e) (houtfitted : c.Outfitted) (act : Act) :
    (c.step act).Grounded e := by
  refine ⟨h.running_step, ?_⟩
  intro i a point answer hanswered hensures
  rw [engine_options_eq (options_step c act)] at hensures
  rcases hanswered with hq | ⟨b, now, rfl, hq⟩
  · rcases landed_cases hq with hold | ⟨failure, rfl, hsent, rfl⟩
    · exact (h.ensured i a point answer (.inl hold) hensures).step act
    · exact hasDocument_of_lands hsent rfl hensures
  · rcases landed_cases hq with hold | ⟨failure, rfl, hsent, rfl⟩
    · exact (h.ensured i a point answer (.inr ⟨b, now, rfl, hold⟩) hensures).step act
    · refine hasDocument_of_lands hsent ?_ hensures
      rw [houtfitted b]
      rfl

/-! ## Running until stopped -/

/-- Nothing but a stop ends the run of an engine; a start that fails does not. -/
theorem running_step (hwell : (c.roster e).WellFormed (c.engines e).options.maxRetries.toNat)
    (hrunning : (c.engines e).phase = .running) (hstops : ¬ c.Stops e act) :
    ((c.step act).engines e).phase = .running := by
  cases lifeStep (c := c) (e := e) act with
  | stays hphase => exact hphase.trans hrunning
  | opens _ hstopped => cases hstopped.symm.trans hrunning
  | stops h => exact absurd h hstops
  | @starts i a point answer _ hanswered hphase =>
    refine hphase.trans ?_
    have hduty := duty_of_startAnswered hanswered
    have hmove := (c.engines e).resumeStart_move point answer
    generalize (c.engines e).resumeStart point answer = move at hmove
    cases hmove with
    | waiting _ _ hcontrol => exact (congrArg Engine.Control.phase hcontrol).trans hrunning
    | running _ _ hcontrol => exact congrArg Engine.Control.phase hcontrol
    | failed _ hcontrol =>
      refine (congrArg Engine.Control.phase hcontrol).trans ?_
      by_cases hepoch : (c.engines e).epoch = point.epoch
      · rw [← hepoch] at hduty
        have hstarting : (c.engines e).phase = .starting := hwell.starting i hduty
        cases hstarting.symm.trans hrunning
      · exact (if_neg hepoch).trans hrunning

theorem openUntilStopped_of_running
    (hwell : (c.roster e).WellFormed (c.engines e).options.maxRetries.toNat)
    (hrunning : (c.engines e).phase = .running) (hdocument : c.HasDocument e) :
    c.OpenUntilStopped e := by
  refine ⟨hdocument, fun acts hacts => ⟨?_, hdocument.run acts⟩⟩
  clear hdocument
  induction acts generalizing c with
  | nil => exact hrunning
  | cons act acts ih =>
    have hfirst := running_step hwell hrunning (hacts _ List.mem_cons_self)
    exact ih (wellFormed_step hwell act) hfirst fun m hm => hacts m (List.mem_cons_of_mem _ hm)

/-- A start that made it leaves the engine running. -/
theorem phase_of_returns_running {epoch : Nat} {kick : Bool}
    (h : c.StartReturns e act (.running epoch kick)) :
    ((c.step act).engines e).phase = .running := by
  cases h with
  | atOnce _ hdone => exact absurd hdone (start_ne_running _ _ _)
  | @answered i a point answer _ hanswered hdone =>
    rw [Cluster.step, phase_proceed_of_startAnswered hanswered]
    have hmove := (c.engines e).resumeStart_move point answer
    generalize (c.engines e).resumeStart point answer = move at hmove hdone
    cases hmove with
    | running _ _ hcontrol => exact congrArg Engine.Control.phase hcontrol
    | waiting | failed => cases hdone

/-- A start that had nothing to do leaves the engine as it was, which is not stopped. -/
theorem engines_of_returns_already (h : c.StartReturns e act .already) :
    (c.step act).engines e = c.engines e ∧ (c.engines e).phase ≠ .stopped := by
  cases h with
  | atOnce hopens hdone =>
    by_cases hstopped : (c.engines e).phase = .stopped
    · rw [Engine.start, if_pos hstopped] at hdone
      cases hdone
    · rw [hopens.engines, Engine.start, if_neg hstopped]
      exact ⟨rfl, hstopped⟩
  | @answered i a point answer _ hanswered hdone =>
    have hmove := (c.engines e).resumeStart_move point answer
    generalize (c.engines e).resumeStart point answer = move at hmove hdone
    cases hmove <;> cases hdone

theorem grounded_run (engines : Nat → Engine.Options) (brokers : BrokerId → Broker.Options)
    (memory : Store.Memory) (ids : IdSupply) (clock : Millis) (acts : List Act) (e : EngineId) :
    ((init engines brokers memory ids clock).run acts).Grounded e := by
  let start := init engines brokers memory ids clock
  have houtfitted (acts : List Act) : (start.run acts).Outfitted :=
    Outfitted.of_options (fun _ => rfl) (options_run start acts)
  induction acts using List.reverseRecOn with
  | nil =>
    refine ⟨fun hrunning => ?_, fun i a point answer hanswered => ?_⟩
    · cases e <;> cases hrunning
    · rcases hanswered with hq | ⟨b, now, -, hq⟩ <;> cases hq
  | append_singleton acts act ih =>
    rw [run_concat]
    exact ih.step (houtfitted acts) act

/-- **A start that succeeds leaves a document, and an engine that runs until it is stopped**, unless
it found the engine starting and left all that to another start. -/
theorem opened_or_premature (engines : Nat → Engine.Options) (brokers : BrokerId → Broker.Options)
    (memory : Store.Memory) (ids : IdSupply) (clock : Millis) (acts : List Act) (e : EngineId)
    (act : Act) (result : Engine.StartResult) :
    let c := (init engines brokers memory ids clock).run acts
    c.StartReturns e act result → result.isOk = true →
    (c.step act).OpenUntilStopped e ∨
      (result = .already ∧ (c.engines e).phase = .starting ∧
        ∃ i, c.AwaitsStart e (c.engines e).epoch i) := by
  intro c hreturns hok
  have hwell := wellFormed_run_init engines brokers memory ids clock acts e
  have hgrounded := grounded_run engines brokers memory ids clock acts e
  have hopen (hrunning : ((c.step act).engines e).phase = .running) :
      (c.step act).OpenUntilStopped e :=
    openUntilStopped_of_running (wellFormed_step hwell act) hrunning
      (hgrounded.running_step hrunning)
  cases result with
  | failed cause => cases hok
  | running epoch kick => exact .inl (hopen (phase_of_returns_running hreturns))
  | already =>
    obtain ⟨hsame, hstopped⟩ := engines_of_returns_already hreturns
    cases hphase : (c.engines e).phase with
    | stopped => exact absurd hphase hstopped
    | running =>
      rw [← hsame] at hphase
      exact .inl (hopen hphase)
    | starting =>
      have hstaffed := staffed_run engines brokers memory ids clock acts e
      obtain ⟨i, hi⟩ := hstaffed.starting hphase
      exact .inr ⟨rfl, rfl, i, awaitsStart_iff.2 hi⟩

theorem opened_at_first_start :
    let e : EngineId := .lone 0
    let c := blank.run [.startEngine e, .land 0]
    c.StartReturns e (.proceed 0) (.running 1 false) ∧
    ((c.step (.proceed 0)).OpenUntilStopped e ∨
      (Engine.StartResult.running 1 false = .already ∧ (c.engines e).phase = .starting ∧
        ∃ i, c.AwaitsStart e (c.engines e).epoch i)) := by
  intro e c
  have hreturns : c.StartReturns e (.proceed 0) (.running 1 false) := by
    have hq : (blank.run [.startEngine (.lone 0), .land 0]).procs[0]? = some (.awaiting
        (.start (.lone 0) (.creating 1)) (.landed (.ok "1"))) := rfl
    exact .answered (.inl hq) rfl
  exact ⟨hreturns,
    opened_or_premature _ _ _ _ _ [.startEngine e, .land 0] e (.proceed 0) _ hreturns rfl⟩

/-- A second start succeeds while the first one waits for a store that is down.  There is no
document, and nobody stops the engine, and yet it is stopped a moment later. -/
theorem stopped_after_premature_success :
    let e : EngineId := .lone 0
    let outage : Store.Error := .backend "memory" "create" "unavailable"
    let c := blank.run [.setMemory ⟨0, some outage⟩, .startEngine e]
    let opened := c.step (.startEngine e)
    let after : List Act := [.land 0, .proceed 0]
    c.StartReturns e (.startEngine e) .already ∧ ¬ opened.HasDocument e ∧
    (opened.engines e).phase = .starting ∧
    (∀ m ∈ opened.trail after, ¬ m.before.Stops e m.act) ∧
    ((opened.run after).engines e).phase = .stopped := by
  intro e outage c opened after
  refine ⟨.atOnce (.call rfl) rfl, ?_, by decide +kernel, ?_, by decide +kernel⟩
  · rintro ⟨entry, hentry⟩
    have hnone : opened.memory.entry? (opened.engines e).options.stateKey = none := by
      decide +kernel
    cases hnone.symm.trans hentry
  · intro m hm hstops
    rcases List.mem_cons.1 hm with rfl | hm
    · cases hstops
    · obtain rfl := List.mem_singleton.1 hm
      cases hstops with
      | superseded he => exact absurd he nofun
      | unregistered he => exact absurd he nofun

end Cluster

end LeaseQueue
