import LeaseQueue.Proofs.Cluster.Candidacy
import LeaseQueue.Proofs.Cluster.Revisions

/-!
# Brokers in office

A broker that has won its election is in office although its registration may be under way for long.
It is upheld as long as the document names it, with a heartbeat no older than the one it was elected
by; after that its time is over, or some registration came too late:

  `Upholds timeout c hist`

Only a put can end a term.  Everything else upholds whoever was upheld before.
-/

namespace LeaseQueue.Cluster

open Engine (Pending)

/-- A registration took effect when the heartbeat by which its broker was elected was stale. -/
inductive Belated (timeout : Millis) (c : Cluster) : Prop where
  | intro {b : BrokerId} {time : Millis} {epoch : Nat} {pass : Engine.Pass} {document : Document}
    {results : List MutationResult} {expected : Store.Token} {call : Store.Call .put}
    {token : Store.Token} {won : Document} {p : Pending}
    (landed : .landed time (.commit (.ofBroker b) epoch (.writing pass document results expected))
      call (.ok token) ∈ c.log)
    (registration : p ∈ pass.batch ∧ p.mutation.IsRegistration)
    (crowned : .crowned b won ∈ c.log) (past : time.IsTrulyPast won.brokerHeartbeat timeout)

/-- A broker is in office, or its time is over. -/
def Upheld (timeout : Millis) (c : Cluster) (hist : List Revision) (b : BrokerId)
    (won : Document) : Prop :=
  (∃ r rest, hist = r :: rest ∧ r.document.broker = some (c.seats b).options.address ∧
    won.brokerHeartbeat.toInt ≤ r.document.brokerHeartbeat.toInt) ∨
  c.clock.IsTrulyPast won.brokerHeartbeat timeout ∨ Belated timeout c

/-- Whoever has won and is not yet registered is upheld, also before it knows. -/
structure Upholds (timeout : Millis) (c : Cluster) (hist : List Revision) : Prop where
  crowned : ∀ b won, .crowned b won ∈ c.log → ¬ c.Registered b → Upheld timeout c hist b won
  won : ∀ (i : ProcId) (a : Store.Access) (point : Broker.Startup a) (answer : Store.Answer a) b
    won,
    c.procs[i]? = some (.awaiting (.broker b point) (.landed answer)) →
    crown? (c.seats b).options point answer = some won → Upheld timeout c hist b won

variable {timeout : Millis} {key : String} {c c' c'' : Cluster} {hist : List Revision}
  {b : BrokerId} {i : ProcId} {e : EngineId} {won : Document}

theorem Belated.mono (h : Belated timeout c) (hlog : c.log ⊆ c'.log) : Belated timeout c' := by
  obtain ⟨hlanded, hregistration, hcrowned, hpast⟩ := h
  exact ⟨hlog hlanded, hregistration, hlog hcrowned, hpast⟩

/-! ## What leaves everyone in office -/

/-- Time and history go on. -/
structure Onward (c c' : Cluster) : Prop where
  log : c.log ⊆ c'.log
  options : ∀ b, (c'.seats b).options = (c.seats b).options
  clock : c.clock.toInt ≤ c'.clock.toInt

/-- Nobody is crowned, and no call takes effect. -/
structure Still (c c' : Cluster) : Prop extends Onward c c' where
  crowned : ∀ b won, .crowned b won ∈ c'.log → .crowned b won ∈ c.log
  procs : ∀ (i : ProcId) (a : Store.Access) (point : Broker.Startup a) (answer : Store.Answer a) b,
    c'.procs[i]? = some (.awaiting (.broker b point) (.landed answer)) →
    c.procs[i]? = some (.awaiting (.broker b point) (.landed answer))

theorem Upheld.onward (h : Upheld timeout c hist b won) (honward : Onward c c') :
    Upheld timeout c' hist b won := by
  rcases h with ⟨r, rest, hhist, hbroker, hheartbeat⟩ | hpast | hbelated
  · exact .inl ⟨r, rest, hhist, honward.options b ▸ hbroker, hheartbeat⟩
  · exact .inr (.inl (hpast.mono honward.clock (Int.le_refl _)))
  · exact .inr (.inr (hbelated.mono honward.log))

theorem Upholds.still (h : Upholds timeout c hist) (hstill : Still c c') :
    Upholds timeout c' hist where
  crowned b won hmem hnot := by
    have hbefore : ¬ c.Registered b := fun hregistered => hnot (hregistered.mono hstill.log)
    exact (h.crowned b won (hstill.crowned b won hmem) hbefore).onward hstill.toOnward
  won i a point answer b won hq hcrown := by
    rw [hstill.options b] at hcrown
    have hbefore := hstill.procs i a point answer b hq
    exact (h.won i a point answer b won hbefore hcrown).onward hstill.toOnward

namespace Still

theorem refl : Still c c where
  log := fun _ => id
  options _ := rfl
  clock := Int.le_refl _
  crowned _ _ := id
  procs _ _ _ _ _ := id

theorem trans (h : Still c c') (h' : Still c' c'') : Still c c'' where
  log := fun _ hmem => h'.log (h.log hmem)
  crowned b won hmem := h.crowned b won (h'.crowned b won hmem)
  options b := (h'.options b).trans (h.options b)
  clock := Int.le_trans h.clock h'.clock
  procs i a point answer b hq := h.procs i a point answer b (h'.procs i a point answer b hq)

end Still

theorem Aside.still (h : Aside c c') : Still c c' where
  log := h.log_subset
  crowned _ _ hmem := h.mem_log id hmem
  options := h.options
  clock := Int.le_of_eq (congrArg Int64.toInt h.clock.symm)
  procs i _ _ _ _ hq := (h.procs i _ hq).resolve_left id

def Event.IsCrown : Event → Prop
  | .crowned _ _ => True
  | _ => False

section Stills

variable (c) (b) (i) (e)

theorem still_record (event : Event) (h : ¬ event.IsCrown) : Still c (c.record event) :=
  { Still.refl with
    log := List.subset_cons_self _ _
    crowned := by
      intro b won hmem
      rcases List.mem_cons.1 hmem with rfl | hold
      · exact absurd trivial h
      · exact hold }

theorem still_setProc (proc : Proc)
    (h : ∀ (a : Store.Access) (point : Broker.Startup a) answer b,
      proc ≠ .awaiting (.broker b point) (.landed answer)) : Still c (c.setProc i proc) :=
  { Still.refl with
    procs := by
      intro j a point answer b hq
      rcases getElem?_procs_set hq with ⟨-, hnew⟩ | hold
      · exact absurd hnew.symm (h _ _ _ _)
      · exact hold }

theorem still_setReign (reign : Reign) : Still c (c.setReign b reign) :=
  { Still.refl with options := broker_options_eq (options_setReign c b reign) }

theorem still_launch {a : Store.Access} (caller : Caller a) : Still c (c.launch i caller) := by
  have hset (failure : Option Store.Error) :
      Still c (c.setProc i (.awaiting caller (.sent failure))) := still_setProc c i _ nofun
  have hset := hset (c.memory.accept (c.callOf caller)).2.failure
  exact { hset with
    log := List.subset_cons_self _ _
    crowned := fun b won hmem => (List.mem_cons.1 hmem).resolve_left nofun }

theorem still_followElection (election : Election)
    (next : Store.Progress Election.Attempt Election.Outcome) :
    Still c (c.followElection i election next) := by
  cases next with
  | waiting attempt => exact still_launch c i _
  | done outcome => exact (still_setProc c i .ended nofun).trans (still_record _ _ id)

theorem still_begin {a : Store.Access} (caller : Caller a) : Still c (c.begin caller) :=
  (aside_spawn c .ended trivial).still.trans (still_launch _ _ caller)

theorem still_submit (m : Mutation) : Still c (c.submit e m) := by
  have hticket : Still c { c with tickets := c.tickets + 1 } := { Still.refl with }
  rw [submit]
  split
  · exact hticket.trans (still_record _ _ id)
  next engine kick _ =>
    exact (hticket.trans (aside_setEngine _ e engine).still).trans (still_record _ _ id)

theorem still_followBroker (move : Engine × Broker.StartStep) :
    Still c (c.followBroker i b move) := by
  have hset := (aside_setEngine c (.ofBroker b) move.1).still
  obtain ⟨engine, point | ⟨epoch, kick, m⟩ | cause⟩ := move
  · exact hset.trans (still_launch _ i _)
  · have hspawn := hset.trans (aside_spawn _ (.loop (.ofBroker b) epoch .entering) trivial).still
    exact (hspawn.trans (still_submit _ (.ofBroker b) m)).trans (still_setProc _ i _ nofun)
  · exact (hset.trans (still_setReign _ b _)).trans (still_setProc _ i _ nofun)

theorem still_enthrone (verdict : Engine.Verdict) : Still c (c.enthrone i b verdict) := by
  have hended : Still c (c.setProc i .ended) := still_setProc c i .ended nofun
  cases verdict with
  | ok r => exact hended.trans (still_setReign _ b _)
  | error cause =>
    exact (hended.trans (still_setReign _ b _)).trans (aside_stopEngine _ (.ofBroker b)).still

theorem still_followBeat (own : Bool) (next : Broker.HeartbeatStep) :
    Still c (c.followBeat i b own next) := by
  cases next with
  | done result => exact (aside_finishBeat c b i own result).still
  | renew m => exact (still_submit c (.ofBroker b) m).trans (still_setProc _ i _ nofun)

theorem still_startBroker : Still c (c.startBroker b) := by
  unfold startBroker
  split
  · have hstood := still_record (c.setReign b .starting)
      (.stood (c.seats b).options.election c.clock) id
    exact ((still_setReign c b .starting).trans hstood).trans (still_begin _ _)
  · exact .refl

theorem still_beat (own : Bool) : Still c (c.beat b own) := by
  unfold beat
  split
  · exact still_begin c _
  · exact .refl

end Stills

theorem Upholds.crown (h : Upholds timeout c hist) {document : Option Document}
    (hnew : ∀ won, document = some won → Upheld timeout c hist b won) :
    Upholds timeout (c.crown b document) hist := by
  cases document with
  | none => exact h
  | some won =>
    have honward : Onward c (c.crown b (some won)) :=
      ⟨List.subset_cons_self _ _, fun _ => rfl, Int.le_refl _⟩
    refine ⟨fun b' won' hmem hnot => ?_, fun j a point answer b' won' hq hcrown => ?_⟩
    · rcases List.mem_cons.1 hmem with hcrowned | hold
      · cases hcrowned
        exact (hnew won rfl).onward honward
      · exact (h.crowned b' won' hold fun hr => hnot (hr.mono honward.log)).onward honward
    · exact (h.won j a point answer b' won' hq hcrown).onward honward

theorem Upholds.resume (h : Upholds timeout c hist) {a : Store.Access} {caller : Caller a}
    {answer : Store.Answer a} (hq : c.procs[i]? = some (.awaiting caller (.landed answer))) :
    Upholds timeout (c.resume i caller answer) hist := by
  cases caller with
  | start e point => exact h.still (aside_followStart c i e _).still
  | commit e epoch point => exact h.still (aside_followMove c i e epoch _).still
  | election election attempt => exact h.still (still_followElection c i election _)
  | broker b point =>
    -- The verdict of the election is noted here, and nowhere else.
    have hcrowned := h.crown fun won hwon => h.won i a point answer b won hq hwon
    exact hcrowned.still (still_followBroker _ b i _)
  | beat b own => exact h.still (still_followBeat c b i own _)
  | client call => exact h.still (aside_setProc c i .ended trivial).still

theorem Upholds.proceed (h : Upholds timeout c hist) (i : ProcId) :
    Upholds timeout (c.proceed i) hist := by
  unfold Cluster.proceed
  split
  next hq => exact h.resume hq
  next e epoch pause hq => exact h.still (aside_stepLoop c i e epoch pause).still
  next b ticket hq =>
    split
    next verdict _ => exact h.still (still_enthrone c b i verdict)
    · exact h
  next b own ticket hq =>
    split
    · exact h.still (aside_finishBeat c b i own _).still
    · exact h
  · exact h

theorem Upholds.step_of_ne_land (h : Upholds timeout c hist) {act : Act} (hact : act.IsLed c)
    (hland : ∀ i, act ≠ .land i) : Upholds timeout (c.step act) hist := by
  cases act with
  | setClock clock => exact h.still { Still.refl with clock := hact }
  | setMemory options => exact h.still { Still.refl with }
  | submit e m =>
    rw [Cluster.step]
    split
    · exact h.still (still_submit c e m)
    · exact h
  | startEngine e =>
    rw [Cluster.step]
    split
    · have hspawn := aside_spawn c .ended trivial
      exact h.still (hspawn.trans (aside_followStart _ _ e _)).still
    · exact h
  | stopEngine e =>
    rw [Cluster.step]
    split
    · exact h.still (aside_stopEngine c e).still
    · exact h
  | elect => cases hact
  | call call => exact h.still (still_begin c _)
  | startBroker b => exact h.still (still_startBroker c b)
  | beat b own => exact h.still (still_beat c b own)
  | stopBroker b => exact h.still (aside_stopBroker c b).still
  | land i => exact absurd rfl (hland i)
  | proceed i => exact h.proceed i

end LeaseQueue.Cluster
