import LeaseQueue.Proofs.Cluster.Order

/-!
# Candidates

What brokers do on their way into office keeps a cluster in order, as long as nobody else speaks of
brokers and the clock does not go back:

  `c.Orderly → act.IsLed c → (c.step act).Orderly`

In an orderly cluster an engine carries the registration of its own broker only, after a won
election and before it took effect.
-/

namespace LeaseQueue.Cluster

open Engine (Ledger Pending)

variable {c c' : Cluster} {b : BrokerId} {i : ProcId} {e : EngineId}

/-! ## Steps on the way -/

theorem Orderly.setClock (h : c.Orderly) {clock : Millis} (hclock : c.clock.toInt ≤ clock.toInt) :
    Orderly { c with clock } :=
  h.mono (fun _ => id) (Nat.le_refl _) (fun _ => rfl) hclock (fun _ _ => .inl) (fun _ _ => id)
    (fun _ _ => id) (fun _ => id) (fun _ broker hb => .inl ⟨broker, hb⟩) fun _ => .inl

theorem Orderly.setProc (h : c.Orderly) (proc : Proc) (hproc : c.ProcOrderly proc)
    (hother : ∀ b (a : Store.Access) (point : Broker.Startup a) flight,
      proc ≠ .awaiting (.broker b point) flight) : (c.setProc i proc).Orderly := by
  refine h.mono (fun _ => id) (Nat.le_refl _) (fun _ => rfl) (Int.le_refl _) (fun _ _ => .inl)
    (fun _ _ => id) (fun b x hx => ?_) (fun _ => id) (fun _ broker hb => .inl ⟨broker, hb⟩)
    fun q hq => ?_
  · cases x with
    | start j =>
      obtain ⟨a, point, flight, hj⟩ := hx
      rcases getElem?_procs_set hj with ⟨-, hnew⟩ | hold
      · exact absurd hnew.symm (hother _ _ _ _)
      · exact ⟨a, point, flight, hold⟩
    | request p => exact hx
  · rcases List.mem_or_eq_of_mem_set hq with hold | rfl
    · exact .inl hold
    · exact .inr hproc

theorem Orderly.setReign (h : c.Orderly) {reign : Reign} (hunclaimed : reign ≠ .unclaimed)
    (hbegun : ∀ broker, reign = .begun broker → c.Registered b) :
    (c.setReign b reign).Orderly := by
  refine h.mono (fun _ => id) (Nat.le_refl _) (broker_options_eq (options_setReign c b reign))
    (Int.le_refl _) (fun _ _ => .inl) (fun _ _ => id) (fun _ _ => id) (fun d => ?_)
    (fun d broker => ?_) fun _ => .inl
  all_goals by_cases hd : d = b
  · rw [hd, seats_setReign_self]
    exact fun hreign => absurd hreign hunclaimed
  · rw [seats_setReign_of_ne c hd]
    exact id
  · rw [hd, seats_setReign_self]
    exact fun hreign => .inr (hbegun broker hreign)
  · rw [seats_setReign_of_ne c hd]
    exact fun hreign => .inl ⟨broker, hreign⟩

/-- A submission that was taken. -/
theorem Orderly.accept (h : c.Orderly) {m : Mutation} {engine : Engine} (hlawful : c.Lawful e m)
    (hfirst : m.IsRegistration → ∀ b, e = .ofBroker b →
      (c.seats b).reign ≠ .unclaimed ∧ ∀ x, ¬ c.Claims b x) :
    (({ c with tickets := c.tickets + 1 }.setEngine e engine).record
      (.accepted e ⟨c.tickets, m⟩)).Orderly := by
  let c' := ({ c with tickets := c.tickets + 1 }.setEngine e engine).record
    (.accepted e ⟨c.tickets, m⟩)
  have hlog : c.log ⊆ c'.log := List.subset_cons_self _ _
  have haccepted (d : EngineId) (p : Pending) (hp : .accepted d p ∈ c'.log) :
      (d = e ∧ p = ⟨c.tickets, m⟩) ∨ .accepted d p ∈ c.log := by
    rcases List.mem_cons.1 hp with hnew | hold
    · cases hnew
      exact .inl ⟨rfl, rfl⟩
    · exact .inr hold
  have hclaims (b : BrokerId) (x : Claim) (hx : c'.Claims b x) :
      c.Claims b x ∨ (e = .ofBroker b ∧ x = .request ⟨c.tickets, m⟩ ∧ m.IsRegistration) := by
    cases x with
    | start j => exact .inl hx
    | request p =>
      rcases haccepted _ p hx.1 with ⟨he, rfl⟩ | hold
      · exact .inr ⟨he.symm, rfl, hx.2⟩
      · exact .inl ⟨hold, hx.2⟩
  exact {
    epoch := h.epoch
    stood := by
      intro election now hmem
      exact h.stood election now ((List.mem_cons.1 hmem).resolve_left nofun)
    fresh := by
      intro d p hp
      rcases haccepted d p hp with ⟨-, rfl⟩ | hold
      · exact Nat.lt_succ_self _
      · exact Nat.lt_succ_of_lt (h.fresh d p hold)
    lawful := by
      intro d p hp
      rcases haccepted d p hp with ⟨rfl, rfl⟩ | hold
      · exact hlawful.mono hlog fun _ => rfl
      · exact (h.lawful d p hold).mono hlog fun _ => rfl
    once := by
      intro b x y hx hy
      rcases hclaims b x hx with hx | ⟨he, rfl, hm⟩ <;>
        rcases hclaims b y hy with hy | ⟨he', rfl, hm'⟩
      · exact h.once b x y hx hy
      · exact absurd hx ((hfirst hm' b he').2 x)
      · exact absurd hy ((hfirst hm b he).2 y)
      · rfl
    unclaimed := by
      intro b x hb hx
      rcases hclaims b x hx with hx | ⟨he, -, hm⟩
      · exact h.unclaimed b x hb hx
      · exact (hfirst hm b he).1 hb
    begun := fun b broker hb => (h.begun b broker hb).mono hlog
    procs := by
      intro q hq
      refine (h.procs q hq).mono hlog (Nat.le_succ _) fun d p hp hticket => ?_
      rcases haccepted d p hp with ⟨-, rfl⟩ | hold
      · exact absurd hticket (Nat.lt_irrefl _)
      · exact hold }

theorem Orderly.submit (h : c.Orderly) {m : Mutation} (hlawful : c.Lawful e m)
    (hfirst : m.IsRegistration → ∀ b, e = .ofBroker b →
      (c.seats b).reign ≠ .unclaimed ∧ ∀ x, ¬ c.Claims b x) : (c.submit e m).Orderly := by
  rw [Cluster.submit]
  split
  · have hticket : Aside c { c with tickets := c.tickets + 1 } :=
      { Aside.refl with tickets := Nat.le_succ _ }
    exact (hticket.trans (aside_record _ (.rejected e ⟨c.tickets, m⟩) trivial)).orderly h
  · exact h.accept hlawful hfirst

/-- What a submission leaves to those who wait for its verdict. -/
theorem Orderly.accepted_submit (h : c.Orderly) {m : Mutation} {d : EngineId} {p : Pending}
    (hp : .accepted d p ∈ (c.submit e m).log) (hticket : p.ticket = c.tickets) :
    d = e ∧ p.mutation = m := by
  have hnot (hold : .accepted d p ∈ c.log) : False :=
    Nat.lt_irrefl _ (hticket ▸ h.fresh d p hold)
  rw [Cluster.submit] at hp
  split at hp
  · rcases List.mem_cons.1 hp with hnew | hold
    · cases hnew
    · exact (hnot hold).elim
  · rcases List.mem_cons.1 hp with hnew | hold
    · cases hnew
      exact ⟨rfl, rfl⟩
    · exact (hnot hold).elim

theorem lt_tickets_submit (c : Cluster) (e : EngineId) (m : Mutation) :
    c.tickets < (c.submit e m).tickets := by
  rw [submit]
  split <;> exact Nat.lt_succ_self _

/-- A broker's start makes its next call: its claim stays the same. -/
theorem Orderly.launch_broker (h : c.Orderly) {a : Store.Access} {point : Broker.Startup a}
    (hpoint : ∀ flight, c.ProcOrderly (.awaiting (.broker b point) flight))
    (hreign : (c.seats b).reign ≠ .unclaimed) (honly : ∀ x, c.Claims b x → x = .start i) :
    (c.launch i (.broker b point)).Orderly := by
  let c' := c.launch i (.broker b point)
  have hlog : c.log ⊆ c'.log := List.subset_cons_self _ _
  have hclaims (d : BrokerId) (x : Claim) (hx : c'.Claims d x) :
      c.Claims d x ∨ (d = b ∧ x = .start i) := by
    cases x with
    | start j =>
      obtain ⟨a', point', flight, hj⟩ := hx
      rcases getElem?_procs_set hj with ⟨rfl, hnew⟩ | hold
      · cases hnew
        exact .inr ⟨rfl, rfl⟩
      · exact .inl ⟨a', point', flight, hold⟩
    | request p => exact .inl ⟨(List.mem_cons.1 hx.1).resolve_left nofun, hx.2⟩
  have honce (x : Claim) (hx : c'.Claims b x) : x = .start i := by
    rcases hclaims b x hx with hold | ⟨-, rfl⟩
    · exact honly x hold
    · rfl
  have hmem {event : Event} (hevent : ¬ event.IsIdle) (h : event ∈ c'.log) : event ∈ c.log := by
    rcases List.mem_cons.1 h with rfl | hold
    · exact absurd trivial hevent
    · exact hold
  exact {
    epoch := h.epoch
    stood := fun election now hin => h.stood election now (hmem id hin)
    fresh := fun e p hp => h.fresh e p (hmem id hp)
    lawful := fun e p hp => (h.lawful e p (hmem id hp)).mono hlog fun _ => rfl
    once := by
      intro d x y hx hy
      by_cases hd : d = b
      · subst hd
        rw [honce x hx, honce y hy]
      · exact h.once d x y ((hclaims d x hx).resolve_right fun h => hd h.1)
          ((hclaims d y hy).resolve_right fun h => hd h.1)
    unclaimed := by
      intro d x hd hx
      rcases hclaims d x hx with hold | ⟨rfl, -⟩
      · exact h.unclaimed d x hd hold
      · exact hreign hd
    begun := fun d broker hd => (h.begun d broker hd).mono hlog
    procs := by
      intro q hq
      have hmono {q : Proc} (hq : c.ProcOrderly q) : c'.ProcOrderly q :=
        hq.mono hlog (Nat.le_refl _) fun e p hp _ => hmem id hp
      rcases List.mem_or_eq_of_mem_set hq with hold | rfl
      · exact hmono (h.procs q hold)
      · exact hmono (hpoint _) }

/-- Whoever is elected has a document that says so. -/
theorem wonBy_of_isLeader {election : Election} {a : Store.Access}
    {attempt : Election.Attempt a} {answer : Store.Answer a} {result : Election.Result}
    (h : election.resume attempt answer = .done (.ok result)) (hleader : result.isLeader) :
    ∃ d, wonBy election attempt answer = some d := by
  have hput {answer : Store.Answer .put} (hverdict : Election.verdict answer = .ok result) :
      ∃ token, answer = .ok token := by
    revert hverdict
    fun_cases Election.verdict answer
    case case1 token => exact fun _ => ⟨token, rfl⟩
    case case2 =>
      rintro ⟨⟩
      cases hleader
    case case3 => exact nofun
  revert h
  fun_cases Election.resume election attempt answer
  case case4 now object document hdecode =>
    fun_cases Election.consider election document object.token now
    case case1 hbroker hfresh =>
      rintro ⟨⟩
      refine ⟨document, ?_⟩
      simp [wonBy, hdecode, hbroker, hfresh]
    case case2 =>
      rintro ⟨⟩
      cases hleader
    all_goals exact nofun
  case case5 document answer =>
    intro h
    obtain ⟨token, rfl⟩ := hput (Store.Progress.done.inj h)
    exact ⟨document, rfl⟩
  case case6 document expected answer =>
    intro h
    obtain ⟨token, rfl⟩ := hput (Store.Progress.done.inj h)
    exact ⟨document, rfl⟩
  all_goals exact nofun

theorem Orderly.crown (h : c.Orderly) (document : Option Document) :
    (c.crown b document).Orderly := by
  cases document with
  | none => exact h
  | some d =>
    have hmem {event : Event} (hevent : event ≠ .crowned b d)
        (hin : event ∈ (c.crown b (some d)).log) : event ∈ c.log :=
      (List.mem_cons.1 hin).resolve_left hevent
    refine h.mono (List.subset_cons_self _ _) (Nat.le_refl _) (fun _ => rfl) (Int.le_refl _)
      (fun _ _ hin => .inl (hmem nofun hin)) (fun _ _ hin => hmem nofun hin) (fun d x hx => ?_)
      (fun _ => id) (fun _ broker hb => .inl ⟨broker, hb⟩) fun _ => .inl
    cases x with
    | start j => exact hx
    | request p => exact ⟨hmem nofun hx.1, hx.2⟩

/-- A submission in the place of a process that goes on as another is one after it has ended. -/
theorem setProc_submit (c : Cluster) (i : ProcId) (e : EngineId) (m : Mutation) (proc : Proc) :
    (c.submit e m).setProc i proc = ((c.setProc i .ended).submit e m).setProc i proc := by
  have hprocs : ((c.procs.set i .ended).set i proc) = c.procs.set i proc := List.set_set ..
  simp only [Cluster.submit, Cluster.setProc]
  split <;> simp only [record, setEngine, hprocs]

/-- A start whose engine runs has it write the registration. -/
theorem Orderly.register (h : c.Orderly) {a : Store.Access} {point : Broker.Startup a}
    {flight : Flight a} (hq : c.procs[i]? = some (.awaiting (.broker b point) flight))
    (hcrowned : ∃ d, .crowned b d ∈ c.log) (timestamp : Millis) :
    ((c.submit (.ofBroker b) (.registerBroker (c.seats b).options.address timestamp)).setProc i
      (.registering b c.tickets)).Orderly := by
  let m : Mutation := .registerBroker (c.seats b).options.address timestamp
  let ended := c.setProc i .ended
  have hended : ended.Orderly := (aside_setProc c i .ended trivial).orderly h
  have hclaim : c.Claims b (.start i) := ⟨a, point, flight, hq⟩
  have hnone (x : Claim) (hx : ended.Claims b x) : False := by
    obtain rfl := h.once b x _ ((aside_setProc c i .ended trivial).claims hx) hclaim
    obtain ⟨a', point', flight', hi⟩ := hx
    obtain ⟨hlt, -⟩ := List.getElem?_eq_some_iff.1 hq
    cases (List.getElem?_set_self hlt).symm.trans hi
  have hsubmit : (ended.submit (.ofBroker b) m).Orderly := by
    refine hended.submit ⟨rfl, hcrowned⟩ fun _ d hd => ?_
    cases hd
    exact ⟨fun hreign => h.unclaimed b _ hreign hclaim, hnone⟩
  rw [setProc_submit]
  refine hsubmit.setProc _ ⟨lt_tickets_submit ended _ m, fun e p hp hticket => ?_⟩ nofun
  obtain ⟨rfl, hm⟩ := hended.accepted_submit hp hticket
  exact ⟨rfl, hm ▸ trivial⟩

theorem Orderly.followOpen (h : c.Orderly) {a : Store.Access} {point : Broker.Startup a}
    {flight : Flight a} (hq : c.procs[i]? = some (.awaiting (.broker b point) flight))
    (hcrowned : ∃ d, .crowned b d ∈ c.log) (now : Millis)
    (move : Engine × Engine.Startup.Progress) :
    (c.followBroker i b (Broker.openEngine (c.seats b).options now move)).Orderly := by
  have hclaim : c.Claims b (.start i) := ⟨a, point, flight, hq⟩
  have hfail (engine : Engine) (cause : Broker.Error) :
      (c.followBroker i b (engine, .failed cause)).Orderly := by
    have hset := aside_setEngine c (.ofBroker b) engine
    have hfailed := hset.trans (aside_setReign _ b (.failed cause) nofun nofun)
    exact (hfailed.trans (aside_setProc _ i .ended trivial)).orderly h
  obtain ⟨engine, result | start⟩ := move
  · cases result with
    | already => exact hfail engine _
    | failed cause => exact hfail engine _
    | running epoch kick =>
      have hset := aside_setEngine c (.ofBroker b) engine
      have hspawn := hset.trans (aside_spawn _ (.loop (.ofBroker b) epoch .entering) trivial)
      have hlt := (List.getElem?_eq_some_iff.1 hq).1
      have hq' : ((c.setEngine (.ofBroker b) engine).spawn
          (.loop (.ofBroker b) epoch .entering)).procs[i]? =
            some (.awaiting (.broker b point) flight) :=
        (List.getElem?_append_left hlt).trans hq
      exact (hspawn.orderly h).register hq' hcrowned now
  · have hset := (aside_setEngine c (.ofBroker b) engine).orderly h
    refine hset.launch_broker (fun _ => hcrowned) (fun hreign => ?_) fun x hx => ?_
    · exact h.unclaimed b _ hreign hclaim
    · exact hset.once b x _ hx hclaim

theorem Orderly.resumeBroker (h : c.Orderly) {a : Store.Access} {point : Broker.Startup a}
    {answer : Store.Answer a}
    (hq : c.procs[i]? = some (.awaiting (.broker b point) (.landed answer))) :
    (c.resume i (.broker b point) answer).Orderly := by
  have hcrown := h.crown (b := b) (crown? (c.seats b).options point answer)
  simp only [resume]
  generalize hdocument : crown? (c.seats b).options point answer = document at hcrown
  obtain ⟨hprocs, hseats, -, hlog⟩ := crown_fields c b document
  have hclaim : (c.crown b document).Claims b (.start i) := ⟨a, point, _, hprocs ▸ hq⟩
  have hopen (hcrowned : ∃ d, .crowned b d ∈ (c.crown b document).log) (now : Millis)
      (move : Engine × Engine.Startup.Progress) :
      ((c.crown b document).followBroker i b
        (Broker.openEngine (c.seats b).options now move)).Orderly := by
    have hopened := hcrown.followOpen (hprocs ▸ hq) hcrowned now move
    rwa [hseats] at hopened
  have hfail (engine : Engine) (cause : Broker.Error) :
      ((c.crown b document).followBroker i b (engine, .failed cause)).Orderly := by
    have hset := aside_setEngine (c.crown b document) (.ofBroker b) engine
    have hfailed := hset.trans (aside_setReign _ b (.failed cause) nofun nofun)
    exact (hfailed.trans (aside_setProc _ i .ended trivial)).orderly hcrown
  have hwon {now : Millis} {attempt : Election.Attempt a} {result : Election.Result}
      (hpoint : point = .electing now attempt)
      (hresume : (c.seats b).options.election.resume attempt answer = .done (.ok result))
      (hleader : result.isLeader) : ∃ d, .crowned b d ∈ (c.crown b document).log := by
    obtain ⟨d, hd⟩ := wonBy_of_isLeader hresume hleader
    subst hpoint
    obtain rfl := hdocument.symm.trans hd
    exact ⟨d, List.mem_cons_self⟩
  clear hdocument
  fun_cases Broker.resumeStart (c.seats b).options (c.engines (.ofBroker b)) point answer
  case case1 now attempt a' attempt' hresume =>
    have hset := (aside_setEngine _ (.ofBroker b) (c.engines (.ofBroker b))).orderly hcrown
    refine hset.launch_broker (fun _ => trivial) (fun hreign => ?_) fun x hx => ?_
    · exact hcrown.unclaimed b _ hreign hclaim
    · exact hset.once b x _ hx hclaim
  case case2 | case3 | case4 => exact hfail _ _
  case case5 now attempt hresume => exact hopen (hwon rfl hresume rfl) now _
  case case6 now attempt hresume => exact hopen (hwon rfl hresume rfl) now _
  case case7 now start =>
    obtain ⟨d, hd⟩ := h.procs _ (List.mem_of_getElem? hq)
    exact hopen ⟨d, hlog hd⟩ now _

theorem Orderly.followBeat (h : c.Orderly) (hregistered : c.Registered b) (own : Bool)
    (answer : Store.Answer .read) :
    (c.followBeat i b own (Broker.heartbeat (c.seats b).options c.clock answer)).Orderly := by
  fun_cases Broker.heartbeat (c.seats b).options c.clock answer
  case case3 =>
    have hsubmit : (c.submit (.ofBroker b)
        (.renewBroker (c.seats b).options.address c.clock)).Orderly :=
      h.submit ⟨rfl, hregistered⟩ nofun
    exact hsubmit.setProc (.renewing b own c.tickets) trivial nofun
  all_goals exact (aside_finishBeat c b i own _).orderly h

theorem Orderly.resume (h : c.Orderly) {a : Store.Access} {caller : Caller a}
    {answer : Store.Answer a} (hq : c.procs[i]? = some (.awaiting caller (.landed answer))) :
    (c.resume i caller answer).Orderly := by
  have hproc := h.procs _ (List.mem_of_getElem? hq)
  cases caller with
  | start e point => exact (aside_followStart c i e _).orderly h
  | commit e epoch point => exact (aside_followMove c i e epoch _).orderly h
  | election election attempt => cases hproc
  | broker b point => exact h.resumeBroker hq
  | beat b own => exact h.followBeat hproc own answer
  | client call => exact (aside_setProc c i .ended trivial).orderly h

theorem mem_log_of_taken {p : Pending} (h : p ∈ (c.ledger e).taken) : .accepted e p ∈ c.log := by
  obtain ⟨event, hevent, hsome⟩ := List.mem_filterMap.1 h
  revert hsome
  fun_cases Event.taken? e event
  case case1 =>
    rintro ⟨⟩
    exact hevent
  all_goals exact nofun

/-- A result was given by some engine. -/
theorem settled_of_verdict? {ticket : Engine.Ticket} {r : MutationResult}
    (h : c.verdict? ticket = some (.ok r)) : ∃ e, ∃ s ∈ c.settled e,
      s.ticket = ticket ∧ s.verdict = .ok r := by
  obtain ⟨event, hevent, hverdict⟩ := List.exists_of_findSome?_eq_some h
  revert hverdict
  fun_cases Event.verdict? ticket event
  case case1 e s hticket =>
    intro hverdict
    refine ⟨e, s, List.mem_filterMap.2 ⟨_, hevent, if_pos rfl⟩, hticket, ?_⟩
    exact Option.some.inj hverdict
  all_goals exact nofun

/-- A broker whose registration has a result is registered. -/
theorem Orderly.registered_of_verdict? (h : c.Orderly)
    (hsound : ∀ e, Ledger.Sound (c.engines e).options.heartbeatTimeout (c.ledger e))
    {ticket : Engine.Ticket} (hq : .registering b ticket ∈ c.procs) {r : MutationResult}
    (hverdict : c.verdict? ticket = some (.ok r)) : c.Registered b := by
  obtain ⟨e, s, hs, rfl, hr⟩ := settled_of_verdict? hverdict
  obtain ⟨w, m, hfolds, hzip, htaken⟩ := (hsound e).result hs hr
  obtain ⟨rfl, hm⟩ := (h.procs _ hq).2 e _ (mem_log_of_taken htaken) rfl
  have hw : w ∈ c.written (.ofBroker b) :=
    (List.mem_filter.1 (hfolds ▸ List.mem_singleton_self w)).1
  exact ⟨w, hw, _, (List.of_mem_zip hzip).1, hm⟩

theorem Orderly.enthrone (h : c.Orderly) {verdict : Engine.Verdict}
    (hregistered : ∀ r, verdict = .ok r → c.Registered b) : (c.enthrone i b verdict).Orderly := by
  have hended := aside_setProc c i .ended trivial
  cases verdict with
  | ok r =>
    refine Orderly.setReign (hended.orderly h) nofun fun broker _ => ?_
    exact (hregistered r rfl).mono hended.log_subset
  | error cause =>
    have hfailed := hended.trans (aside_setReign _ b (.failed (.engine cause)) nofun nofun)
    exact (hfailed.trans (aside_stopEngine _ _)).orderly h

theorem Orderly.proceed (h : c.Orderly)
    (hsound : ∀ e, Ledger.Sound (c.engines e).options.heartbeatTimeout (c.ledger e))
    (i : ProcId) : (c.proceed i).Orderly := by
  unfold Cluster.proceed
  split
  next hq => exact h.resume hq
  next e epoch pause hq => exact (aside_stepLoop c i e epoch pause).orderly h
  next b ticket hq =>
    split
    next verdict hverdict =>
      refine h.enthrone fun r hr => ?_
      exact h.registered_of_verdict? hsound (List.mem_of_getElem? hq) (hr ▸ hverdict)
    · exact h
  next b own ticket hq =>
    split
    · exact (aside_finishBeat c b i own _).orderly h
    · exact h
  · exact h

theorem Orderly.startBroker (h : c.Orderly) (b : BrokerId) : (c.startBroker b).Orderly := by
  unfold Cluster.startBroker
  split
  next hunclaimed =>
    let standing := (c.setReign b .starting).record (.stood (c.seats b).options.election c.clock)
    have hmem {event : Event} (hin : event ∈ standing.log) :
        event = .stood (c.seats b).options.election c.clock ∨ event ∈ c.log := List.mem_cons.1 hin
    have haccepted (e : EngineId) (p : Pending) (hin : .accepted e p ∈ standing.log) :
        .accepted e p ∈ c.log := by
      rcases hmem hin with hnew | hold
      · cases hnew
      · exact hold
    have hclaims (d : BrokerId) (x : Claim) (hx : standing.Claims d x) : c.Claims d x := by
      cases x with
      | start j => exact hx
      | request p => exact ⟨haccepted _ p hx.1, hx.2⟩
    have hstarting : (c.setReign b .starting).Orderly := by
      refine h.setReign ?_ ?_
      · intro heq
        cases heq
      · intro broker heq
        cases heq
    have hstanding : standing.Orderly := by
      refine hstarting.mono (List.subset_cons_self _ _) (Nat.le_refl _) (fun _ => rfl)
        (Int.le_refl _) (fun election now hin => ?_) haccepted
        hclaims (fun _ => id) (fun _ broker hb => .inl ⟨broker, hb⟩) fun _ => .inl
      rcases hmem hin with hnew | hold
      · cases hnew
        exact .inr rfl
      · exact .inl hold
    have hspawn := aside_spawn standing .ended trivial
    refine (hspawn.orderly hstanding).launch_broker (fun _ => trivial) ?_ fun x hx => ?_
    · rw [show ((standing.spawn .ended).seats b) = (c.setReign b .starting).seats b from rfl,
        seats_setReign_self]
      intro heq
      cases heq
    · exact absurd (hclaims b x (hspawn.claims hx)) (h.unclaimed b x hunclaimed)
  · exact h

theorem Orderly.beat (h : c.Orderly) (b : BrokerId) (own : Bool) : (c.beat b own).Orderly := by
  unfold Cluster.beat
  split
  next broker hbegun =>
    have hspawn := (aside_spawn c .ended trivial).orderly h
    have hset (failure : Option Store.Error) : ((c.spawn .ended).setProc c.procs.length
        (.awaiting (.beat b own) (.sent failure))).Orderly := by
      refine hspawn.setProc _ (h.begun b broker hbegun) fun b a point flight heq => ?_
      cases heq
    have hcall : Aside ((c.spawn .ended).setProc c.procs.length (.awaiting (.beat b own)
        (.sent (c.memory.accept (c.callOf (.beat b own))).2.failure))) (c.begin (.beat b own)) :=
      { Aside.refl with log := ⟨[_], rfl, List.forall_mem_singleton.2 trivial⟩ }
    exact hcall.orderly (hset _)
  · exact h

/-- A call that takes effect leaves its process the same claim. -/
theorem Orderly.landed (h : c.Orderly) {a : Store.Access} {caller : Caller a}
    {failure : Option Store.Error} (hq : c.procs[i]? = some (.awaiting caller (.sent failure)))
    (answer : Store.Answer a) (memory : Store.Memory) :
    (c.landed i caller answer memory).Orderly := by
  let c' := c.landed i caller answer memory
  have hlog : c.log ⊆ c'.log := List.subset_cons_self _ _
  have hmem {event : Event} (hevent : event.isLanding = false) (hin : event ∈ c'.log) :
      event ∈ c.log := by
    rcases List.mem_cons.1 hin with rfl | hold
    · cases hevent
    · exact hold
  refine h.mono hlog (Nat.le_refl _) (fun _ => rfl) (Int.le_refl _)
    (fun _ _ hin => .inl (hmem rfl hin)) (fun _ _ hin => hmem rfl hin) (fun b x hx => ?_)
    (fun _ => id) (fun _ broker hb => .inl ⟨broker, hb⟩) fun q hq' => ?_
  · cases x with
    | start j =>
      obtain ⟨a', point, flight, hj⟩ := hx
      rcases getElem?_procs_set hj with ⟨rfl, hnew⟩ | hold
      · cases hnew
        exact ⟨a, point, _, hq⟩
      · exact ⟨a', point, flight, hold⟩
    | request p => exact ⟨hmem rfl hx.1, hx.2⟩
  · rcases List.mem_or_eq_of_mem_set hq' with hold | rfl
    · exact .inl hold
    · have hold := h.procs _ (List.mem_of_getElem? hq)
      have hsame : c.ProcOrderly (.awaiting caller (.landed answer)) := by
        cases caller with
        | broker b point => cases point <;> exact hold
        | start | commit | election | beat | client => exact hold
      exact .inr (hsame.mono hlog (Nat.le_refl _) fun e p hp _ => hmem rfl hp)

/-- Brokers, their engines and those who use them: the clock does not go back, nobody else stands
for election, and nobody but a broker speaks of brokers. -/
def Act.IsLed (c : Cluster) : Act → Prop
  | .setClock clock => c.clock.toInt ≤ clock.toInt
  | .submit _ m => m.IsAboutJobs
  | .elect _ _ => False
  | _ => True

theorem Orderly.step (h : c.Orderly)
    (hsound : ∀ e, Ledger.Sound (c.engines e).options.heartbeatTimeout (c.ledger e))
    {act : Act} (hact : act.IsLed c) : (c.step act).Orderly := by
  cases act with
  | setClock clock => exact h.setClock hact
  | setMemory options =>
    have hset : Aside c { c with memory := { c.memory with options } } := { Aside.refl with }
    exact hset.orderly h
  | submit e m =>
    rw [Cluster.step]
    split
    · refine h.submit ?_ fun hm => absurd hm (Mutation.IsAboutJobs.not_isRegistration hact)
      cases e with
      | lone n => exact hact
      | ofBroker b =>
        cases m with
        | registerBroker | renewBroker => cases hact
        | enqueue | claim | heartbeat | complete => exact hact
    · exact h
  | startEngine e =>
    rw [Cluster.step]
    split
    · have hspawn := aside_spawn c .ended trivial
      exact (hspawn.trans (aside_followStart _ _ e _)).orderly h
    · exact h
  | stopEngine e =>
    rw [Cluster.step]
    split
    · exact (aside_stopEngine c e).orderly h
    · exact h
  | elect => cases hact
  | call call => exact (aside_begin c (.client call) fun _ => trivial).orderly h
  | startBroker b => exact h.startBroker b
  | beat b own => exact h.beat b own
  | stopBroker b => exact (aside_stopBroker c b).orderly h
  | land i =>
    rcases land_cases c i with heq | ⟨a, caller, failure, hq, heq⟩
    · rw [Cluster.step, heq]
      exact h
    · rw [Cluster.step, heq]
      exact h.landed hq _ _
  | proceed i => exact h.proceed hsound i

/-! ## Batches on their way -/

section Batches

variable (h : c.Orderly)
  (hsound : ∀ e, Ledger.Sound (c.engines e).options.heartbeatTimeout (c.ledger e))

theorem errand_of_sent {epoch : Nat} {a : Store.Access} {point : Engine.Commit a}
    {failure : Option Store.Error}
    (hq : c.procs[i]? = some (.awaiting (.commit e epoch point) (.sent failure))) :
    ⟨point.pass.batch, point.aim, false⟩ ∈ (c.ledger e).errands := by
  refine (errands_perm hq).mem_iff.2 (List.mem_append_left _ ?_)
  rw [Proc.errands, if_pos rfl]
  exact List.mem_singleton_self _

include hsound

/-- What a loop carries was accepted. -/
theorem accepted_of_sent {epoch : Nat} {a : Store.Access} {point : Engine.Commit a}
    {failure : Option Store.Error}
    (hq : c.procs[i]? = some (.awaiting (.commit e epoch point) (.sent failure))) {p : Pending}
    (hp : p ∈ point.pass.batch) : .accepted e p ∈ c.log := by
  refine mem_log_of_taken ((hsound e).same p (List.mem_append_right _ ?_))
  exact List.mem_flatMap.2 ⟨_, errand_of_sent hq, hp⟩

theorem claim_of_registered (hregistered : c.Registered b) :
    ∃ w ∈ c.written (.ofBroker b), ∃ p ∈ w.batch, c.Claims b (.request p) := by
  obtain ⟨w, hw, p, hp, hm⟩ := hregistered
  have hdrained := ((hsound (.ofBroker b)).written w hw).1
  have htaken := ((hsound (.ofBroker b)).batches _ hdrained).2 p hp
  exact ⟨w, hw, p, hp, mem_log_of_taken htaken, hm⟩

include h

theorem Orderly.lawful_of_sent {epoch : Nat} {a : Store.Access} {point : Engine.Commit a}
    {failure : Option Store.Error}
    (hq : c.procs[i]? = some (.awaiting (.commit e epoch point) (.sent failure))) {p : Pending}
    (hp : p ∈ point.pass.batch) : c.Lawful e p.mutation :=
  h.lawful e p (accepted_of_sent hsound hq hp)

/-- A broker whose registration is on its way is not registered. -/
theorem Orderly.not_registered_of_sent {epoch : Nat} {a : Store.Access} {point : Engine.Commit a}
    {failure : Option Store.Error}
    (hq : c.procs[i]? = some (.awaiting (.commit (.ofBroker b) epoch point) (.sent failure)))
    {p : Pending} (hp : p ∈ point.pass.batch) (hm : p.mutation.IsRegistration) :
    ¬ c.Registered b := by
  intro hregistered
  obtain ⟨w, hw, p', hp', hclaim⟩ := claim_of_registered hsound hregistered
  have hown : c.Claims b (.request p) := ⟨accepted_of_sent hsound hq hp, hm⟩
  cases h.once b _ _ hclaim hown
  refine (hsound (.ofBroker b)).not_folded (errand_of_sent hq) rfl hp hw ?_
  exact Engine.Write.folds_iff.2 ⟨p, hp', rfl⟩

/-- Nor is a broker whose start is under way. -/
theorem Orderly.not_registered_of_start {a : Store.Access} {point : Broker.Startup a}
    {flight : Flight a} (hq : c.procs[i]? = some (.awaiting (.broker b point) flight)) :
    ¬ c.Registered b := by
  intro hregistered
  obtain ⟨w, -, p, -, hclaim⟩ := claim_of_registered hsound hregistered
  cases h.once b _ (.start i) hclaim ⟨a, point, flight, hq⟩

end Batches

end LeaseQueue.Cluster
