import LeaseQueue.Proofs.Cluster.Candidates
import LeaseQueue.Proofs.Cluster.Routines
import LeaseQueue.Proofs.Cluster.Seats

/-!
# What becomes known of elections

Whoever stands for nobody but itself is told the outcome.  A broker that does not come to lead has
failed, and the reason says what the outcome was.  Nothing of the kind is said but when an attempt
is decided:

  `(c.step act).Announces brokers election outcome who → c.Announces brokers election outcome who ∨`
  `∃ i, act = .proceed i ∧ c.Resolves i election outcome ∧ c.StandsFor i who`
-/

namespace LeaseQueue

/-- What a broker's failure says of its election. -/
def Broker.Error.outcome? : Broker.Error → Option Election.Outcome
  | .leadershipDenied leader => some (.ok (.otherLeader leader))
  | .electionConflict => some (.ok .conflict)
  | .election cause => some (.error cause)
  | .engine _ => none

namespace Cluster

/-- An election is known to have had this outcome, for a broker or for nobody in particular. -/
inductive Announces (brokers : BrokerId → Broker.Options) (c : Cluster) (election : Election)
    (outcome : Election.Outcome) : Option BrokerId → Prop where
  | returned (h : .elected election outcome ∈ c.log) : Announces brokers c election outcome none
  | denied {b : BrokerId} {cause : Broker.Error} (helection : (brokers b).election = election)
    (hcause : cause.outcome? = some outcome) (hreign : (c.seats b).reign = .failed cause) :
    Announces brokers c election outcome (some b)

/-- Whose start the process carries out, if any. -/
def StandsFor (c : Cluster) (i : ProcId) (who : Option BrokerId) : Prop :=
  ∃ q, c.procs[i]? = some q ∧ q.candidate? = who

/-- A process has the answer that its attempt is decided by. -/
def Resolves (c : Cluster) (i : ProcId) (election : Election) (outcome : Election.Outcome) : Prop :=
  ∃ (a : Store.Access) (attempt : Election.Attempt a) (answer : Store.Answer a),
    c.standing? i = some ⟨election, attempt, .landed answer⟩ ∧
    election.resume attempt answer = .done outcome

/-- Nothing has become known of any election. -/
structure Quiet (c c' : Cluster) : Prop where
  log : ∀ election outcome, .elected election outcome ∈ c'.log → .elected election outcome ∈ c.log
  reign : ∀ b cause, (c'.seats b).reign = .failed cause →
    (∃ e, cause = .engine e) ∨ (c.seats b).reign = .failed cause

variable {c c' c'' : Cluster} {brokers : BrokerId → Broker.Options} {i : ProcId} {e : EngineId}
  {b : BrokerId} {who : Option BrokerId} {election : Election} {outcome : Election.Outcome}

/-! ## Nothing becomes known -/

theorem Announces.of_quiet (h : c'.Announces brokers election outcome who)
    (hquiet : Quiet c c') : c.Announces brokers election outcome who := by
  cases h with
  | returned h => exact .returned (hquiet.log _ _ h)
  | denied helection hcause hreign =>
    rcases hquiet.reign _ _ hreign with ⟨cause, rfl⟩ | hreign
    · cases hcause
    · exact .denied helection hcause hreign

theorem Routine.quiet (h : Routine c c') : Quiet c c' := by
  refine ⟨fun election outcome hmem => ?_, h.reign⟩
  obtain ⟨new, hlog, hnew⟩ := h.log
  rw [hlog] at hmem
  rcases List.mem_append.1 hmem with hmem | hmem
  · cases hnew _ hmem
  · exact hmem

theorem quiet_submit (m : Mutation) : Quiet c (c.submit e m) := by
  rw [submit]
  split
  all_goals
    refine ⟨fun election outcome hmem => ?_, fun _ _ => .inr⟩
    rcases List.mem_cons.1 hmem with heq | hmem
    · cases heq
    · exact hmem

theorem quiet_followBeat {own : Bool} (next : Broker.HeartbeatStep) :
    Quiet c (c.followBeat i b own next) := by
  cases next with
  | done result => exact (routine_finishBeat result).quiet
  | renew renewal =>
    have h := quiet_submit (c := c) (e := .ofBroker b) renewal
    exact ⟨h.log, h.reign⟩

/-! ## An attempt is decided -/

theorem announces_followElection {progress : Store.Progress Election.Attempt Election.Outcome}
    {stood : Election}
    (h : (c.followElection i stood progress).Announces brokers election outcome who) :
    c.Announces brokers election outcome who ∨
      stood = election ∧ progress = .done outcome ∧ who = none := by
  cases progress with
  | waiting attempt => exact .inl (h.of_quiet (routine_launch _).quiet)
  | done result =>
    cases h with
    | returned h =>
      rcases List.mem_cons.1 h with heq | h
      · cases heq
        exact .inr ⟨rfl, rfl, rfl⟩
      · exact .inl (.returned h)
    | denied helection hcause hreign => exact .inl (.denied helection hcause hreign)

theorem announces_followBroker {move : Engine × Broker.StartStep}
    (h : (c.followBroker i b move).Announces brokers election outcome who) :
    c.Announces brokers election outcome who ∨
      (brokers b).election = election ∧ who = some b ∧
        ∃ cause, cause.outcome? = some outcome ∧ move.2 = .failed cause := by
  obtain ⟨engine, point | ⟨epoch, kick, registration⟩ | cause⟩ := move
  · have hset : Routine c (c.setEngine (.ofBroker b) engine) := .of_eq rfl rfl rfl
    exact .inl (h.of_quiet (hset.trans (routine_launch _)).quiet)
  · let spawned := (c.setEngine (.ofBroker b) engine).spawn (.loop (.ofBroker b) epoch .entering)
    have hsubmit := quiet_submit (c := spawned) (e := .ofBroker b) registration
    exact .inl (h.of_quiet ⟨hsubmit.log, hsubmit.reign⟩)
  · cases h with
    | returned h => exact .inl (.returned h)
    | @denied d found helection hcause hreign =>
      let c' := (c.setEngine (.ofBroker b) engine).setReign b (.failed cause)
      replace hreign : (c'.seats d).reign = .failed found := hreign
      by_cases hd : d = b
      · subst hd
        rw [seats_setReign_self] at hreign
        cases hreign
        exact .inr ⟨helection, rfl, cause, hcause, rfl⟩
      · rw [seats_setReign_of_ne _ hd] at hreign
        exact .inl (.denied helection hcause hreign)

theorem outcome?_openEngine {o : Broker.Options} {now : Millis}
    {move : Engine × Engine.Startup.Progress} {cause : Broker.Error}
    (h : (Broker.openEngine o now move).2 = .failed cause) : cause.outcome? = none := by
  obtain ⟨engine, result | point⟩ := move
  · cases result with
    | running => cases h
    | already | failed =>
      cases h
      rfl
  · cases h

/-- A broker that is denied an office has been through an election. -/
theorem electing_of_denied {o : Broker.Options} {engine : Engine} {a : Store.Access}
    {point : Broker.Startup a} {answer : Store.Answer a} {cause : Broker.Error}
    (hcause : cause.outcome? = some outcome)
    (h : (Broker.resumeStart o engine point answer).2 = .failed cause) :
    ∃ now attempt, point = .electing now attempt ∧
      o.election.resume attempt answer = .done outcome := by
  have hopened {now : Millis} {move : Engine × Engine.Startup.Progress}
      (h : (Broker.openEngine o now move).2 = .failed cause) : False := by
    rw [outcome?_openEngine h] at hcause
    cases hcause
  cases point with
  | opening now point => exact (hopened h).elim
  | electing now attempt =>
    refine ⟨now, attempt, rfl, ?_⟩
    rw [Broker.resumeStart] at h
    cases hresume : o.election.resume attempt answer with
    | waiting attempt' =>
      rw [hresume] at h
      cases h
    | done found =>
      rw [hresume] at h
      rcases found with failure | result
      · cases h
        cases hcause
        rfl
      · cases result with
        | elected | alreadyLeader => exact (hopened h).elim
        | otherLeader | conflict =>
          cases h
          cases hcause
          rfl

theorem announces_resume {a : Store.Access} {caller : Caller a} {answer : Store.Answer a}
    (hq : c.procs[i]? = some (.awaiting caller (.landed answer)))
    (h : (c.resume i caller answer).Announces c.options.2 election outcome who) :
    c.Announces c.options.2 election outcome who ∨
      c.Resolves i election outcome ∧ c.StandsFor i who := by
  have hstanding := standing?_of_getElem? hq
  cases caller with
  | start e point => exact .inl (h.of_quiet (routine_followStart _).quiet)
  | commit e epoch point => exact .inl (h.of_quiet (routine_followMove _).quiet)
  | election stood attempt =>
    rcases announces_followElection h with h | ⟨rfl, hdone, rfl⟩
    · exact .inl h
    · exact .inr ⟨⟨_, attempt, answer, hstanding, hdone⟩, _, hq, rfl⟩
  | broker b point =>
    rcases announces_followBroker h with h | ⟨rfl, rfl, cause, hcause, hfailed⟩
    · exact .inl (h.of_quiet (routine_crown _).quiet)
    · obtain ⟨now, attempt, rfl, hdone⟩ := electing_of_denied hcause hfailed
      exact .inr ⟨⟨_, attempt, answer, hstanding, hdone⟩, _, hq, rfl⟩
  | beat b own => exact .inl (h.of_quiet (quiet_followBeat _))
  | client call => exact .inl (h.of_quiet ⟨fun _ _ => id, fun _ _ => .inr⟩)

theorem announces_proceed (h : (c.proceed i).Announces c.options.2 election outcome who) :
    c.Announces c.options.2 election outcome who ∨
      c.Resolves i election outcome ∧ c.StandsFor i who := by
  revert h
  unfold proceed
  split
  next hq => exact announces_resume hq
  · exact fun h => .inl (h.of_quiet (routine_stepLoop _).quiet)
  · split
    · exact fun h => .inl (h.of_quiet (routine_enthrone _).quiet)
    · exact .inl
  · split
    · exact fun h => .inl (h.of_quiet (routine_finishBeat _).quiet)
    · exact .inl
  · exact .inl

theorem announces_landed {a : Store.Access} {caller : Caller a} {answer : Store.Answer a}
    {memory : Store.Memory}
    (h : (c.landed i caller answer memory).Announces brokers election outcome who) :
    c.Announces brokers election outcome who := by
  refine h.of_quiet ⟨fun election outcome hmem => ?_, fun _ _ => .inr⟩
  rcases List.mem_cons.1 hmem with heq | hmem
  · cases heq
  · exact hmem

/-- **What becomes known of an election has just been decided.** -/
theorem announces_step {act : Act}
    (h : (c.step act).Announces c.options.2 election outcome who) :
    c.Announces c.options.2 election outcome who ∨
      ∃ i, act = .proceed i ∧ c.Resolves i election outcome ∧ c.StandsFor i who := by
  cases act with
  | setClock | setMemory => exact .inl (h.of_quiet ⟨fun _ _ => id, fun _ _ => .inr⟩)
  | submit e m =>
    rw [step] at h
    split at h
    · exact .inl (h.of_quiet (quiet_submit m))
    · exact .inl h
  | startEngine e =>
    rw [step] at h
    split at h
    · exact .inl (h.of_quiet routine_startEngine.quiet)
    · exact .inl h
  | stopEngine e =>
    rw [step] at h
    split at h
    · exact .inl (h.of_quiet routine_stopEngine.quiet)
    · exact .inl h
  | elect stood now => exact .inl (h.of_quiet (routine_elect stood now).quiet)
  | call call => exact .inl (h.of_quiet (routine_begin _).quiet)
  | startBroker b => exact .inl (h.of_quiet routine_startBroker.quiet)
  | beat b own => exact .inl (h.of_quiet (routine_beat own).quiet)
  | stopBroker b => exact .inl (h.of_quiet routine_stopBroker.quiet)
  | land i =>
    rw [step] at h
    rcases land_cases c i with heq | ⟨a, caller, failure, -, heq⟩
    · rw [heq] at h
      exact .inl h
    · rw [heq] at h
      exact .inl (announces_landed h)
  | proceed i => exact (announces_proceed h).imp_right fun h => ⟨i, rfl, h⟩

/-! ## A decision becomes known -/

/-- A broker whose election is lost fails, and says why. -/
theorem exists_denial {o : Broker.Options} {a : Store.Access} {attempt : Election.Attempt a}
    {answer : Store.Answer a} (hdone : o.election.resume attempt answer = .done outcome)
    (hlost : outcome ≠ .ok .elected ∧ outcome ≠ .ok .alreadyLeader) :
    ∃ cause, cause.outcome? = some outcome ∧ ∀ (engine : Engine) (now : Millis),
      Broker.resumeStart o engine (.electing now attempt) answer = (engine, .failed cause) := by
  simp only [Broker.resumeStart, hdone]
  rcases outcome with failure | result
  · exact ⟨.election failure, rfl, fun _ _ => rfl⟩
  · cases result with
    | elected => exact absurd rfl hlost.1
    | alreadyLeader => exact absurd rfl hlost.2
    | otherLeader leader => exact ⟨.leadershipDenied leader, rfl, fun _ _ => rfl⟩
    | conflict => exact ⟨.electionConflict, rfl, fun _ _ => rfl⟩

/-- An attempt that is lost is known to be lost at once. -/
theorem Resolves.announces (h : c.Resolves i election outcome) (hwho : c.StandsFor i who)
    (hlost : outcome ≠ .ok .elected ∧ outcome ≠ .ok .alreadyLeader) :
    (c.step (.proceed i)).Announces c.options.2 election outcome who := by
  obtain ⟨a, attempt, answer, hstands, hdone⟩ := h
  obtain ⟨q, hq, rfl⟩ := hwho
  have hstanding := (standing?_of_getElem? hq).symm.trans hstands
  cases q with
  | awaiting caller flight =>
    cases caller with
    | election stood attempt =>
      cases hstanding
      rw [step, proceed, hq]
      dsimp only
      rw [resume, hdone]
      exact .returned List.mem_cons_self
    | broker b point =>
      cases point with
      | electing now attempt =>
        cases hstanding
        obtain ⟨cause, hcause, hdenied⟩ := exists_denial hdone hlost
        refine .denied (b := b) rfl hcause ?_
        rw [step, proceed, hq]
        show (((c.crown b _).followBroker i b
          (Broker.resumeStart (c.options.2 b) _ (.electing now attempt) answer)).seats b).reign = _
        rw [hdenied]
        exact congrArg Seat.reign (seats_setReign_self _ b (.failed cause))
      | opening => cases hstanding
    | start | commit | beat | client => cases hstanding
  | loop | registering | renewing | ended => cases hstanding

end Cluster

end LeaseQueue
