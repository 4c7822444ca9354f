import LeaseQueue.Proofs.Cluster.Order

/-!
# How brokers come into office

A process that starts a broker aspires to its seat, until the broker reigns or has failed.  With
respect to one seat a step of a cluster does one of three things (`SeatStep`): it brings nobody
forward, it makes somebody stand for a seat that is unclaimed, or it makes a broker reign whose
process is through.

  `c.Seated b → (c.step act).Seated b`

So a seat has one aspirant at most, and none once it has been decided.
-/

namespace LeaseQueue.Cluster

/-- The broker whose start a process carries out. -/
def Proc.candidate? : Proc → Option BrokerId
  | .awaiting (.broker b _) _ => some b
  | .registering b _ => some b
  | _ => none

def Aspires (c : Cluster) (b : BrokerId) (i : ProcId) : Prop :=
  ∃ q, c.procs[i]? = some q ∧ q.candidate? = some b

structure Seated (c : Cluster) (b : BrokerId) : Prop where
  once : ∀ i j, c.Aspires b i → c.Aspires b j → i = j
  unclaimed : (c.seats b).reign = .unclaimed → ∀ i, ¬ c.Aspires b i
  begun : ∀ broker, (c.seats b).reign = .begun broker → ∀ i, ¬ c.Aspires b i

/-- The seat has been claimed, and whoever aspired to it is through. -/
structure Decided (c : Cluster) (b : BrokerId) : Prop where
  claimed : (c.seats b).reign ≠ .unclaimed
  nobody : ∀ i, ¬ c.Aspires b i

/-- Nobody is brought forward. -/
structure Sits (b : BrokerId) (c c' : Cluster) : Prop where
  aspires : ∀ i, c'.Aspires b i → c.Aspires b i
  unclaimed : (c'.seats b).reign = .unclaimed → (c.seats b).reign = .unclaimed
  begun : ∀ broker, (c'.seats b).reign = .begun broker → ∃ broker, (c.seats b).reign = .begun broker

inductive SeatStep (b : BrokerId) (c c' : Cluster) : Prop where
  | sits (h : Sits b c c')
  | stands (i : ProcId) (hold : (c.seats b).reign = .unclaimed)
    (hnew : (c'.seats b).reign = .starting)
    (haspires : ∀ j, c'.Aspires b j → c.Aspires b j ∨ j = i)
  | reigns (i : ProcId) (hold : c.Aspires b i) (hnew : (c'.seats b).reign ≠ .unclaimed)
    (haspires : ∀ j, c'.Aspires b j → c.Aspires b j ∧ j ≠ i)

variable {c c' c'' : Cluster} {b d : BrokerId} {i : ProcId} {e : EngineId}

theorem Seated.step_of_seatStep (h : c.Seated b) (hstep : SeatStep b c c') : c'.Seated b := by
  cases hstep with
  | sits hsits =>
    constructor
    · intro i j hi hj
      exact h.once i j (hsits.aspires i hi) (hsits.aspires j hj)
    · intro hunclaimed i hi
      exact h.unclaimed (hsits.unclaimed hunclaimed) i (hsits.aspires i hi)
    · intro broker hbegun i hi
      obtain ⟨broker, hbegun⟩ := hsits.begun broker hbegun
      exact h.begun broker hbegun i (hsits.aspires i hi)
  | stands k hold hnew haspires =>
    have honly (i : ProcId) (hi : c'.Aspires b i) : i = k :=
      (haspires i hi).resolve_left (h.unclaimed hold i)
    constructor
    · intro i j hi hj
      rw [honly i hi, honly j hj]
    · intro hunclaimed
      rw [hnew] at hunclaimed
      cases hunclaimed
    · intro broker hbegun
      rw [hnew] at hbegun
      cases hbegun
  | reigns k hold hnew haspires =>
    have hnone (i : ProcId) : ¬ c'.Aspires b i := by
      intro hi
      obtain ⟨hi, hik⟩ := haspires i hi
      exact hik (h.once i k hi hold)
    constructor
    · intro i j hi
      exact absurd hi (hnone i)
    · intro _ i
      exact hnone i
    · intro broker _ i
      exact hnone i

theorem Decided.step_of_seatStep (h : c.Decided b) (hstep : SeatStep b c c') : c'.Decided b := by
  cases hstep with
  | sits hsits =>
    exact ⟨fun hunclaimed => h.claimed (hsits.unclaimed hunclaimed),
      fun i hi => h.nobody i (hsits.aspires i hi)⟩
  | stands k hold => exact absurd hold h.claimed
  | reigns k hold => exact absurd hold (h.nobody k)

theorem Seated.decided (h : c.Seated b) {broker : Broker}
    (hbegun : (c.seats b).reign = .begun broker) : c.Decided b := by
  refine ⟨?_, h.begun broker hbegun⟩
  rw [hbegun]
  exact nofun

/-! ## Nobody is brought forward -/

namespace Sits

theorem refl : Sits b c c := ⟨fun _ => id, id, fun broker h => ⟨broker, h⟩⟩

theorem trans (h : Sits b c c') (h' : Sits b c' c'') : Sits b c c'' where
  aspires i hi := h.aspires i (h'.aspires i hi)
  unclaimed hb := h.unclaimed (h'.unclaimed hb)
  begun broker hb := by
    obtain ⟨broker, hb⟩ := h'.begun broker hb
    exact h.begun broker hb

theorem of_aside (h : Aside c c') : Sits b c c' where
  aspires := by
    rintro i ⟨q, hq, hcandidate⟩
    rcases h.procs i q hq with hidle | hold
    · cases q with
      | awaiting caller flight =>
        cases caller with
        | broker => cases hidle
        | start | commit | election | beat | client => cases hcandidate
      | registering => cases hidle
      | loop | renewing | ended => cases hcandidate
    · exact ⟨q, hold, hcandidate⟩
  unclaimed := h.unclaimed b
  begun := h.begun b

theorem of_eq (hprocs : c'.procs = c.procs) (hseats : c'.seats = c.seats) : Sits b c c' := by
  refine ⟨?_, ?_, ?_⟩
  · rintro i ⟨q, hq, hcandidate⟩
    exact ⟨q, hprocs ▸ hq, hcandidate⟩
  · rw [hseats]
    exact id
  · rw [hseats]
    exact fun broker h => ⟨broker, h⟩

/-- A process goes on, with the candidate that it had or with none. -/
theorem setProc {proc : Proc} (h : proc.candidate? = some b → c.Aspires b i) :
    Sits b c (c.setProc i proc) := by
  refine ⟨?_, id, fun broker h => ⟨broker, h⟩⟩
  rintro j ⟨q, hq, hcandidate⟩
  rcases getElem?_procs_set hq with ⟨rfl, rfl⟩ | hold
  · exact h hcandidate
  · exact ⟨q, hold, hcandidate⟩

theorem setReign_ne (h : b ≠ d) (reign : Reign) : Sits b c (c.setReign d reign) := by
  have hseat := seats_setReign_of_ne c h reign
  refine ⟨fun _ => id, ?_, ?_⟩
  · rw [hseat]
    exact id
  · rw [hseat]
    exact fun broker h => ⟨broker, h⟩

theorem fails (cause : Broker.Error) : Sits b c (c.setReign d (.failed cause)) :=
  of_aside (aside_setReign c d _ nofun nofun)

theorem launch {a : Store.Access} {caller : Caller a}
    (h : ∀ flight, (Proc.awaiting caller flight).candidate? = some b → c.Aspires b i) :
    Sits b c (c.launch i caller) := by
  let failure := (c.memory.accept (c.callOf caller)).2.failure
  have hset : Sits b c (c.setProc i (.awaiting caller (.sent failure))) := setProc (h _)
  exact hset.trans (of_eq rfl rfl)

theorem begin {a : Store.Access} {caller : Caller a}
    (h : ∀ flight, (Proc.awaiting caller flight).candidate? ≠ some b) :
    Sits b c (c.begin caller) := by
  have hspawn : Sits b c (c.spawn .ended) := of_aside (aside_spawn c .ended trivial)
  exact hspawn.trans (launch fun flight hflight => absurd hflight (h flight))

theorem submit (m : Mutation) : Sits b c (c.submit e m) := by
  refine of_eq (procs_submit m) ?_
  rw [Cluster.submit]
  split <;> rfl

theorem crown (document : Option Document) : Sits b c (c.crown d document) := by
  obtain ⟨hprocs, hseats, -, -⟩ := crown_fields c d document
  exact of_eq hprocs hseats

theorem followElection (election : Election)
    (progress : Store.Progress Election.Attempt Election.Outcome) :
    Sits b c (c.followElection i election progress) := by
  cases progress with
  | done outcome =>
    have hended : Sits b c (c.setProc i .ended) := setProc nofun
    exact hended.trans (of_eq rfl rfl)
  | waiting attempt => exact launch fun _ => nofun

theorem followBeat (own : Bool) (next : Broker.HeartbeatStep) :
    Sits b c (c.followBeat i d own next) := by
  cases next with
  | done result => exact of_aside (aside_finishBeat c d i own result)
  | renew renewal => exact (submit renewal).trans (setProc nofun)

/-- A broker's start that goes on aspires to the seat that it did. -/
theorem followBroker (h : c.Aspires d i) (move : Engine × Broker.StartStep) :
    Sits b c (c.followBroker i d move) := by
  obtain ⟨engine, point | ⟨epoch, kick, m⟩ | cause⟩ := move
  · have hset : Sits b c (c.setEngine (.ofBroker d) engine) := of_eq rfl rfl
    refine hset.trans (launch fun flight hflight => ?_)
    obtain rfl := Option.some.inj hflight
    exact h
  · let spawned := (c.setEngine (.ofBroker d) engine).spawn (.loop (.ofBroker d) epoch .entering)
    have hspawned : Sits b c spawned :=
      of_aside ((aside_setEngine c _ engine).trans (aside_spawn _ _ trivial))
    have hsubmit : Sits b c (spawned.submit (.ofBroker d) m) := hspawned.trans (submit m)
    refine hsubmit.trans (setProc fun hcandidate => ?_)
    obtain rfl := Option.some.inj hcandidate
    obtain ⟨q, hq, hcandidate⟩ := h
    obtain ⟨hi, -⟩ := List.getElem?_eq_some_iff.1 hq
    refine ⟨q, ?_, hcandidate⟩
    rw [procs_submit]
    exact (List.getElem?_append_left hi).trans hq
  · have hset : Sits b c (c.setEngine (.ofBroker d) engine) := of_eq rfl rfl
    exact (hset.trans (fails cause)).trans (setProc nofun)

theorem enthrone_error (cause : Engine.Error) : Sits b c (c.enthrone i d (.error cause)) := by
  have hended : Sits b c (c.setProc i .ended) := setProc nofun
  exact (hended.trans (fails _)).trans (of_aside (aside_stopEngine _ _))

theorem landed {a : Store.Access} {caller : Caller a} {failure : Option Store.Error}
    (hq : c.procs[i]? = some (.awaiting caller (.sent failure))) (answer : Store.Answer a)
    (memory : Store.Memory) : Sits b c (c.landed i caller answer memory) := by
  have hset : Sits b c (c.setProc i (.awaiting caller (.landed answer))) := by
    refine setProc fun hcandidate => ⟨_, hq, ?_⟩
    cases caller with
    | broker => exact hcandidate
    | start | commit | election | beat | client => cases hcandidate
  exact hset.trans (of_eq rfl rfl)

theorem resume {a : Store.Access} {caller : Caller a} {answer : Store.Answer a}
    (hq : c.procs[i]? = some (.awaiting caller (.landed answer))) :
    Sits b c (c.resume i caller answer) := by
  cases caller with
  | start e point => exact of_aside (aside_followStart c i e _)
  | commit e epoch point => exact of_aside (aside_followMove c i e epoch _)
  | election election attempt => exact followElection election _
  | broker d point =>
    obtain ⟨hprocs, -, -, -⟩ := crown_fields c d (crown? (c.seats d).options point answer)
    have haspires : (c.crown d (crown? (c.seats d).options point answer)).Aspires d i :=
      ⟨_, hprocs ▸ hq, rfl⟩
    exact (crown _).trans (followBroker haspires _)
  | beat d own => exact followBeat own _
  | client call => exact setProc nofun

end Sits

/-! ## Every step -/

theorem seatStep_enthrone {ticket : Engine.Ticket} (hq : c.procs[i]? = some (.registering d ticket))
    (result : MutationResult) : SeatStep b c (c.enthrone i d (.ok result)) := by
  have hended : Sits b c (c.setProc i .ended) := .setProc nofun
  by_cases hd : b = d
  · subst hd
    refine .reigns i ⟨_, hq, rfl⟩ ?_ ?_
    · rw [enthrone, seats_setReign_self]
      exact nofun
    · intro j hj
      refine ⟨hended.aspires j hj, ?_⟩
      rintro rfl
      obtain ⟨q, hj, hcandidate⟩ := hj
      obtain ⟨hlt, -⟩ := List.getElem?_eq_some_iff.1 hq
      obtain rfl := Option.some.inj ((List.getElem?_set_self hlt).symm.trans hj)
      cases hcandidate
  · exact .sits (hended.trans (.setReign_ne hd _))

theorem seatStep_proceed (i : ProcId) : SeatStep b c (c.proceed i) := by
  unfold proceed
  split
  next hq => exact .sits (.resume hq)
  next e epoch pause hq => exact .sits (.of_aside (aside_stepLoop c i e epoch pause))
  next d ticket hq =>
    split
    next verdict hverdict =>
      cases verdict with
      | ok result => exact seatStep_enthrone hq result
      | error cause => exact .sits (.enthrone_error cause)
    · exact .sits .refl
  next d own ticket hq =>
    split
    · exact .sits (.of_aside (aside_finishBeat c d i own _))
    · exact .sits .refl
  · exact .sits .refl

theorem seatStep_startBroker : SeatStep b c (c.startBroker d) := by
  unfold startBroker
  split
  next hunclaimed =>
    let standing := (c.setReign d .starting).record (.stood (c.seats d).options.election c.clock)
    let point := Broker.begin c.clock
    by_cases hd : b = d
    · subst hd
      refine .stands c.procs.length hunclaimed ?_ ?_
      · show ((c.setReign b .starting).seats b).reign = .starting
        rw [seats_setReign_self]
      · rintro j ⟨q, hj, hcandidate⟩
        rcases getElem?_procs_set hj with ⟨hlast, -⟩ | hold
        · exact .inr hlast
        · have hspawn : Sits b standing (standing.spawn .ended) :=
            .of_aside (aside_spawn _ _ trivial)
          exact .inl (hspawn.aspires j ⟨q, hold, hcandidate⟩)
    · have hstood : Sits b c standing := (Sits.setReign_ne hd .starting).trans (.of_eq rfl rfl)
      have hbegin : Sits b standing (standing.begin (.broker d point)) := by
        refine .begin fun flight hcandidate => hd ?_
        exact (Option.some.inj hcandidate).symm
      exact .sits (hstood.trans hbegin)
  · exact .sits .refl

/-- **Every step of a cluster is one step of each seat.** -/
theorem seatStep (act : Act) : SeatStep b c (c.step act) := by
  cases act with
  | setClock clock => exact .sits (.of_eq rfl rfl)
  | setMemory options => exact .sits (.of_eq rfl rfl)
  | submit e m =>
    rw [step]
    split
    · exact .sits (.submit m)
    · exact .sits .refl
  | startEngine e =>
    rw [step]
    split
    · have hspawn := aside_spawn c .ended trivial
      exact .sits (.of_aside (hspawn.trans (aside_followStart _ _ e _)))
    · exact .sits .refl
  | stopEngine e =>
    rw [step]
    split
    · exact .sits (.of_aside (aside_stopEngine c e))
    · exact .sits .refl
  | elect election now =>
    let standing := c.record (.stood election now)
    have hstood : Sits b c standing := .of_eq rfl rfl
    have hbegin : Sits b standing (standing.begin (.election election (.looking now))) :=
      .begin (by simp [Proc.candidate?])
    exact .sits (hstood.trans hbegin)
  | call call => exact .sits (.begin (by simp [Proc.candidate?]))
  | startBroker d => exact seatStep_startBroker
  | beat d own =>
    rw [step, beat]
    split
    · exact .sits (.begin (by simp [Proc.candidate?]))
    · exact .sits .refl
  | stopBroker d => exact .sits (.of_aside (aside_stopBroker c d))
  | land i =>
    rcases land_cases c i with heq | ⟨a, caller, failure, hq, heq⟩
    · rw [step, heq]
      exact .sits .refl
    · rw [step, heq]
      exact .sits (.landed hq _ _)
  | proceed i => exact seatStep_proceed i

theorem Seated.run (h : c.Seated b) (acts : List Act) : (c.run acts).Seated b := by
  induction acts generalizing c with
  | nil => exact h
  | cons act acts ih => exact ih (h.step_of_seatStep (seatStep act))

theorem seated_init (engines : Nat → Engine.Options) (brokers : BrokerId → Broker.Options)
    (memory : Store.Memory) (ids : IdSupply) (clock : Millis) :
    (init engines brokers memory ids clock).Seated b := by
  have hnone (i : ProcId) : ¬ (init engines brokers memory ids clock).Aspires b i := by
    rintro ⟨q, hq, -⟩
    cases hq
  exact ⟨fun i _ hi => absurd hi (hnone i), fun _ => hnone, fun _ _ => hnone⟩

end LeaseQueue.Cluster
