import LeaseQueue.Proofs.Cluster.Revisions

/-!
# Revisions while processes go on

What a process does with an answer, and where a loop goes from there, makes nothing of documents
that were never stored:

  `Traced R key c hist → Traced R key (c.proceed i) hist`
-/

namespace LeaseQueue.Cluster

variable {R : Recall} {key : String} {c c' : Cluster} {hist : List Revision}

/-! ## What answers bring -/

/-- A document that was read is known. -/
theorem Traced.known_of_read (h : Traced R key c hist) {object : Store.Object} {d : Document}
    (hobject : ∃ r ∈ hist, object = r.entry.toObject)
    (hdecode : Document.decode object.data = .ok d) : Known R hist object.token d := by
  obtain ⟨r, hr, rfl⟩ := hobject
  obtain ⟨hholds, hfit⟩ := h.holds r hr
  have hagree := hholds.agree hfit hdecode
  exact ⟨r, hr, rfl, hagree, R.fit_of_agree hfit hagree⟩

theorem Traced.known_of_received (h : Traced R key c hist) {k : String} (hkey : k = key)
    {answer : Store.Answer .read} {document : Option Document}
    (hbrings : Brings key hist document (.read k) answer) {cached : Engine.Cached}
    (hcached : Engine.received k answer = .ok cached) :
    Known R hist cached.token cached.document := by
  obtain ⟨object, hanswer, hdecode, htoken⟩ := Engine.received_eq_ok hcached
  exact htoken ▸ h.known_of_read (hbrings hkey object hanswer) hdecode

/-- A document that was stored is known. -/
theorem Traced.known_of_put (h : Traced R key c hist) {token : Store.Token} {d : Document}
    (hput : ∃ r ∈ hist, token = toString r.entry.version ∧ r.document = d) :
    Known R hist token d := by
  obtain ⟨r, hr, htoken, rfl⟩ := hput
  exact ⟨r, hr, htoken, R.refl _, (h.holds r hr).2⟩

theorem Traced.informed_cache (h : Traced R key c hist) {e : EngineId} {cached : Engine.Cached}
    (hcached : (c.engines e).options.stateKey = key →
      Known R hist cached.token cached.document) :
    Informed R key hist { c.engines e with cache := some cached } := by
  refine ⟨fun hkey other hother => ?_, (h.engines e).buffer⟩
  cases hother
  exact hcached hkey

theorem finishStart_informed {e : Engine} {epoch : Nat} (h : Informed R key hist e) :
    Informed R key hist (e.finishStart epoch).1 := by
  unfold Engine.finishStart
  split <;> exact ⟨h.cache, h.buffer⟩

theorem failStart_informed {e : Engine} {epoch : Nat} {cause : Engine.Error}
    (h : Informed R key hist e) : Informed R key hist (e.failStart epoch cause).1 := by
  simp only [Engine.failStart]
  split
  · exact ⟨h.cache, h.buffer⟩
  · exact h

theorem Traced.resumeStart (h : Traced R key c hist) {e : EngineId} {a : Store.Access}
    {point : Engine.Startup a} {answer : Store.Answer a}
    (hbrings : Brings key hist (startDocument? point) (point.call (c.engines e).options) answer) :
    Informed R key hist ((c.engines e).resumeStart point answer).1 := by
  cases point with
  | creating epoch =>
    cases answer with
    | ok token =>
      refine finishStart_informed (h.informed_cache fun hkey => ?_)
      exact h.known_of_put (hbrings hkey token rfl .empty rfl)
    | error cause =>
      cases cause with
      | conflict k => exact h.engines e
      | backend | misconfigured => exact failStart_informed (h.engines e)
  | reading epoch =>
    simp only [Engine.resumeStart]
    split
    next cached hcached =>
      refine finishStart_informed (h.informed_cache fun hkey => ?_)
      exact h.known_of_received hkey hbrings hcached
    next cause hcause => exact failStart_informed (h.engines e)

/-! ## What loops know -/

/-- What a move leaves is known, and so is the pass that it goes on with. -/
structure MoveKnown (R : Recall) (key : String) (c : Cluster) (hist : List Revision)
    (e : EngineId) (move : Engine.LoopMove) : Prop where
  options : move.engine.options = (c.engines e).options
  engine : Informed R key hist move.engine
  commit : ∀ {a : Store.Access} (point : Engine.Commit a), move.next = .commit point →
    CommitKnown R key c hist e point
  backOff : ∀ pass wait, move.next = .backOff pass wait → PassKnown R c e pass.batch

theorem moveKnown_of_enter {e : EngineId} {move : Engine.LoopMove} {engine : Engine} {epoch : Nat}
    (hoptions : move.engine.options = (c.engines e).options)
    (hengine : Informed R key hist move.engine) (hnext : move.next = engine.enterLoop epoch) :
    MoveKnown R key c hist e move where
  options := hoptions
  engine := hengine
  commit _ hpoint := absurd (hnext.symm.trans hpoint) (Engine.enterLoop_ne_commit _ _ _)
  backOff _ _ hwait := absurd (hnext.symm.trans hwait) (Engine.enterLoop_ne_backOff _ _ _ _)

theorem moveKnown_write {e : EngineId} {engine : Engine}
    (hoptions : engine.options = (c.engines e).options) (hengine : Informed R key hist engine)
    {pass : Engine.Pass} (hpass : PassKnown R c e pass.batch) {cached : Engine.Cached}
    (hcached : (c.engines e).options.stateKey = key →
      Known R hist cached.token cached.document) (now : Millis) (ids : IdSupply) :
    MoveKnown R key c hist e (engine.write pass cached now ids) where
  options := hoptions
  engine := hengine
  commit := by
    rintro a point hpoint
    cases hpoint
    refine ⟨hpass, fun hkey => ⟨cached.document, hcached hkey, ?_, ?_⟩⟩
    · rw [hoptions]
      exact ⟨now, ids, rfl⟩
    · obtain ⟨r, hr, htoken, hagree, hfit⟩ := hcached hkey
      refine R.fit_pass _ _ _ hfit fun m hm => ?_
      obtain ⟨p, hp, rfl⟩ := List.mem_map.1 hm
      exact hpass.1 p hp
  backOff := nofun

theorem moveKnown_attempt {e : EngineId} {engine : Engine}
    (hoptions : engine.options = (c.engines e).options) (hengine : Informed R key hist engine)
    {pass : Engine.Pass} (hpass : PassKnown R c e pass.batch) (now : Millis) (ids : IdSupply) :
    MoveKnown R key c hist e (engine.attempt pass now ids) := by
  unfold Engine.attempt
  split
  next cached hcached =>
    refine moveKnown_write hoptions hengine hpass (fun hkey => ?_) now ids
    exact hengine.cache (hoptions ▸ hkey) cached hcached
  next hnone =>
    refine ⟨hoptions, hengine, ?_, nofun⟩
    rintro a point hpoint
    cases hpoint
    exact hpass

theorem Traced.resumeCommit (h : Traced R key c hist) {e : EngineId} {epoch : Nat}
    {a : Store.Access} {point : Engine.Commit a} {answer : Store.Answer a}
    (hpoint : CommitKnown R key c hist e point)
    (hbrings : Brings key hist (commitDocument? point) (point.call (c.engines e).options) answer)
    (now : Millis) (ids : IdSupply) :
    MoveKnown R key c hist e ((c.engines e).resumeCommit epoch now ids point answer) := by
  have hengine := h.engines e
  fun_cases Engine.resumeCommit (c.engines e) epoch now ids point answer
  case case1 pass cached answer hcached =>
    have hknown (hkey : (c.engines e).options.stateKey = key) :=
      h.known_of_received hkey hbrings hcached
    refine moveKnown_write ?_ ?_ hpoint hknown now ids
    · rfl
    · exact h.informed_cache hknown
  case case2 pass cause answer _ => exact moveKnown_of_enter rfl hengine rfl
  case case3 pass document results expected token e' =>
    refine moveKnown_of_enter rfl (h.informed_cache fun hkey => ?_) rfl
    exact h.known_of_put (hbrings hkey token rfl document rfl)
  case case4 pass document results expected k e' hlast =>
    exact moveKnown_of_enter rfl (.of_uncached rfl hengine.buffer) rfl
  case case5 pass document results expected k e' hmore conflicts =>
    refine ⟨rfl, .of_uncached rfl hengine.buffer, ?_, ?_⟩
    · rintro _ _ ⟨⟩
    · rintro _ _ ⟨rfl, rfl⟩
      exact hpoint.1
  case case6 pass document results expected cause hcause =>
    exact moveKnown_of_enter rfl hengine rfl

theorem Traced.drain (h : Traced R key c hist) {e : EngineId}
    (hdrained : (c.engines e).buffer ≠ [] → .drained e (c.engines e).buffer ∈ c.log) (epoch : Nat)
    (now : Millis) (ids : IdSupply) :
    MoveKnown R key c hist e ((c.engines e).drain epoch now ids) := by
  unfold Engine.drain
  split
  · exact moveKnown_of_enter rfl (h.engines e) rfl
  next hsome =>
    refine moveKnown_attempt ?_ ?_ ?_ now ids
    · rfl
    · exact ⟨(h.engines e).cache, List.forall_mem_nil _⟩
    · exact ⟨(h.engines e).buffer, hdrained hsome⟩

/-! ## Following moves -/

section Follow

variable (h : Traced R key c hist) {i : ProcId} {e : EngineId} {b : BrokerId}

include h

theorem Traced.followLoop {epoch : Nat} {next : Engine.LoopStep}
    (hcommit : ∀ {a : Store.Access} (point : Engine.Commit a), next = .commit point →
      CommitKnown R key c hist e point)
    (hbackOff : ∀ pass wait, next = .backOff pass wait → PassKnown R c e pass.batch) :
    Traced R key (c.followLoop i e epoch next) hist := by
  cases next with
  | rest => exact h.setProc (q := .loop e epoch .resting) trivial
  | giveWay => exact h.setProc (q := .loop e epoch .givingWay) trivial
  | leave => exact h.setProc (q := .ended) trivial
  | commit point => exact h.launch (.commit e epoch point) (hcommit point rfl)
  | backOff pass wait =>
    exact h.setProc (q := .loop e epoch (.backingOff pass)) (hbackOff pass wait rfl)

theorem Traced.followMove {epoch : Nat} {move : Engine.LoopMove}
    (hmove : MoveKnown R key c hist e move) :
    Traced R key (c.followMove i e epoch move) hist := by
  let c' := ((c.setEngine e move.engine).setIds move.ids).settle e move.settled
  have hc' : Traced R key c' hist :=
    ((h.setEngine hmove.options hmove.engine).setIds move.ids).settle move.settled
  have hlog : c.log ⊆ c'.log := List.subset_append_right _ _
  have hback : c'.background = c.background :=
    (background_settle _ e move.settled).trans (background_setEngine c e _ hmove.options)
  have hoptions : c'.options = c.options := by rw [options, options, hback]
  refine Traced.followLoop hc' (fun point hpoint => ?_) fun pass wait hwait => ?_
  · have hknown := hmove.commit point hpoint
    exact (show CallerKnown R key c hist (.commit e epoch point) from hknown).mono hlog hoptions
      fun _ => id
  · exact (hmove.backOff pass wait hwait).mono hlog

theorem Traced.followStart {move : Engine × Engine.Startup.Progress}
    (hoptions : move.1.options = (c.engines e).options) (hengine : Informed R key hist move.1) :
    Traced R key (c.followStart i e move) hist := by
  have hset := h.setEngine hoptions hengine
  obtain ⟨engine, result | point⟩ := move
  · have hnoted := (hset.setProc (i := i) (q := .ended) trivial).record (.started e result) rfl
    cases result with
    | running epoch kick => exact hnoted.spawn (q := .loop e epoch .entering) trivial
    | already | failed => exact hnoted
  · exact hset.launch (.start e point) trivial

theorem Traced.followElection {election : Election}
    {progress : Store.Progress Election.Attempt Election.Outcome}
    (hprogress : ∀ {a : Store.Access} (attempt : Election.Attempt a),
      progress = .waiting attempt → AttemptKnown R key c hist election attempt) :
    Traced R key (c.followElection i election progress) hist := by
  cases progress with
  | done outcome =>
    exact (h.setProc (i := i) (q := .ended) trivial).record (.elected election outcome) rfl
  | waiting attempt => exact h.launch (.election election attempt) (hprogress attempt rfl)

theorem Traced.followBroker {move : Engine × Broker.StartStep}
    (hoptions : move.1.options = (c.engines (.ofBroker b)).options)
    (hengine : Informed R key hist move.1)
    (hpoint : ∀ {a : Store.Access} (point : Broker.Startup a), move.2 = .waiting point →
      CallerKnown R key c hist (.broker b point))
    (hregister : ∀ epoch kick m, move.2 = .register epoch kick m → R.fits m) :
    Traced R key (c.followBroker i b move) hist := by
  have hset := h.setEngine hoptions hengine
  obtain ⟨engine, point | ⟨epoch, kick, m⟩ | cause⟩ := move
  · have hknown := hpoint point rfl
    have hback := background_setEngine c (.ofBroker b) engine hoptions
    refine hset.launch (.broker b point) (hknown.mono (fun _ => id) ?_ fun _ => id)
    rw [options, options, hback]
  · have hspawn := hset.spawn (q := .loop (.ofBroker b) epoch .entering) trivial
    have hsubmit := hspawn.submit (e := .ofBroker b) (hregister epoch kick m rfl)
    exact hsubmit.setProc (q := .registering b c.tickets) trivial
  · exact (hset.setReign (b := b) (.failed cause)).setProc (q := .ended) trivial

theorem Traced.crown (document : Option Document) :
    Traced R key (c.crown b document) hist := by
  cases document with
  | none => exact h
  | some document => exact h.record (.crowned b document) rfl

theorem Traced.enthrone (verdict : Engine.Verdict) :
    Traced R key (c.enthrone i b verdict) hist := by
  have hended := h.setProc (i := i) (q := .ended) trivial
  cases verdict with
  | ok result => exact hended.setReign _
  | error cause => exact (hended.setReign (b := b) (.failed (.engine cause))).stopEngine

theorem Traced.finishBeat (own : Bool) (result : Except Broker.Error Bool) :
    Traced R key (c.finishBeat i b own result) hist := by
  have hended := (h.setProc (i := i) (q := .ended) trivial).record (.beaten b result) rfl
  fun_cases Cluster.finishBeat c i b own result
  · exact hended.stopBroker
  · exact hended

theorem Traced.followBeat (own : Bool) {next : Broker.HeartbeatStep}
    (hrenew : ∀ m, next = .renew m → R.fits m) :
    Traced R key (c.followBeat i b own next) hist := by
  cases next with
  | done result => exact h.finishBeat own result
  | renew m =>
    have hsubmit := h.submit (e := .ofBroker b) (hrenew m rfl)
    exact hsubmit.setProc (q := .renewing b own c.tickets) trivial

end Follow

/-! ## Going on with an answer -/

theorem Traced.resumeElection (h : Traced R key c hist) {election : Election} {a : Store.Access}
    {attempt : Election.Attempt a} {answer : Store.Answer a}
    (hattempt : AttemptKnown R key c hist election attempt)
    (hbrings : Brings key hist (attemptDocument? attempt) (attempt.call election) answer)
    {a' : Store.Access} {attempt' : Election.Attempt a'}
    (hnext : election.resume attempt answer = .waiting attempt') :
    AttemptKnown R key c hist election attempt' := by
  revert hnext
  fun_cases Election.resume election attempt answer
  case case2 now =>
    rintro ⟨⟩
    exact ⟨now, rfl⟩
  case case4 now object document hdecode =>
    have htake (hold : document.broker = none ∨
        now.isPast document.brokerHeartbeat election.heartbeatTimeout)
        (hkey : election.stateKey = key) : Successor R hist object.token
        (Replaces c election) (document.registerBroker election.address now) := by
      have hknown := h.known_of_read (hbrings hkey object rfl) hdecode
      obtain ⟨r, hr, htoken, hagree, hfit⟩ := hknown
      exact ⟨document, ⟨r, hr, htoken, hagree, hfit⟩, ⟨now, hattempt, rfl, hold⟩,
        R.fit_registerBroker _ _ hfit⟩
    fun_cases Election.consider election document object.token now
    case case3 leader hleader hstale =>
      rintro ⟨⟩
      exact htake (.inr (by simpa [Election.isFresh] using hstale))
    case case4 hnone =>
      rintro ⟨⟩
      exact htake (.inl hnone)
    all_goals exact nofun
  all_goals exact nofun

theorem openEngine_waiting {o : Broker.Options} {now : Millis}
    {move : Engine × Engine.Startup.Progress} {a : Store.Access} {point : Broker.Startup a}
    (h : (Broker.openEngine o now move).2 = .waiting point) :
    ∃ start : Engine.Startup a, point = .opening now start := by
  obtain ⟨engine, result | start⟩ := move
  · cases result <;> cases h
  · cases h
    exact ⟨start, rfl⟩

theorem openEngine_register {o : Broker.Options} {now : Millis}
    {move : Engine × Engine.Startup.Progress} {epoch : Nat} {kick : Bool} {m : Mutation}
    (h : (Broker.openEngine o now move).2 = .register epoch kick m) :
    m = .registerBroker o.address now := by
  obtain ⟨engine, result | start⟩ := move
  · cases result <;> cases h
    rfl
  · cases h

theorem start_informed {e : Engine} (h : Informed R key hist e) :
    Informed R key hist e.start.1 := by
  unfold Engine.start
  split
  · exact ⟨h.cache, h.buffer⟩
  · exact h

theorem Traced.resumeBroker (h : Traced R key c hist) {b : BrokerId} {i : ProcId}
    {a : Store.Access} {point : Broker.Startup a} {answer : Store.Answer a}
    (hpoint : CallerKnown R key c hist (.broker b point))
    (hbrings : Brings key hist (Caller.document? (.broker b point))
      (point.call (c.seats b).options) answer) :
    Traced R key (c.followBroker i b (Broker.resumeStart (c.seats b).options
      (c.engines (.ofBroker b)) point answer)) hist := by
  have hengine := h.engines (.ofBroker b)
  have hregister (m : Mutation) (now : Millis)
      (hm : m = .registerBroker (c.seats b).options.address now) : R.fits m :=
    hm ▸ R.fits_registerBroker _ _
  refine h.followBroker (Broker.resumeStart_keeps _ _ _ _).options ?_ ?_ ?_
  · fun_cases Broker.resumeStart (c.seats b).options (c.engines (.ofBroker b)) point answer
    case case5 | case6 =>
      rw [Broker.openEngine_engine]
      exact start_informed hengine
    case case7 now start =>
      rw [Broker.openEngine_engine]
      exact h.resumeStart (h.outfitted b ▸ hbrings)
    all_goals exact hengine
  · intro a' point' hnext
    revert hnext
    fun_cases Broker.resumeStart (c.seats b).options (c.engines (.ofBroker b)) point answer
    case case1 now attempt a'' attempt' hresume =>
      rintro ⟨⟩
      exact h.resumeElection hpoint hbrings hresume
    case case5 | case6 | case7 =>
      intro hnext
      obtain ⟨start, rfl⟩ := openEngine_waiting hnext
      trivial
    all_goals
      intro hnext
      cases hnext
  · intro epoch kick m hnext
    revert hnext
    fun_cases Broker.resumeStart (c.seats b).options (c.engines (.ofBroker b)) point answer
    case case5 | case6 | case7 =>
      exact fun hnext => hregister m _ (openEngine_register hnext)
    all_goals
      intro hnext
      cases hnext

theorem Traced.resume (h : Traced R key c hist) {i : ProcId} {a : Store.Access}
    {caller : Caller a} {answer : Store.Answer a}
    (hq : c.procs[i]? = some (.awaiting caller (.landed answer))) :
    Traced R key (c.resume i caller answer) hist := by
  obtain ⟨hcaller, hbrings⟩ := h.procs _ (List.mem_of_getElem? hq)
  cases caller with
  | start e point =>
    exact h.followStart (Engine.resumeStart_keeps _ _ _).options (h.resumeStart hbrings)
  | commit e epoch point => exact h.followMove (h.resumeCommit hcaller hbrings _ _)
  | election election attempt =>
    exact h.followElection fun attempt' hnext => h.resumeElection hcaller hbrings hnext
  | broker b point =>
    simp only [Cluster.resume]
    generalize crown? (c.seats b).options point answer = document
    cases document with
    | none => exact h.resumeBroker hcaller hbrings
    | some document =>
      have hcrown := h.record (.crowned b document) rfl
      exact hcrown.resumeBroker (hcaller.mono (List.subset_cons_self _ _) rfl fun _ => id) hbrings
  | beat b own =>
    refine h.followBeat own fun m hm => ?_
    revert hm
    fun_cases Broker.heartbeat (c.seats b).options c.clock answer
    case case3 =>
      rintro ⟨⟩
      exact R.fits_renewBroker _ _
    all_goals exact nofun
  | client call => exact h.setProc (q := .ended) trivial

theorem Traced.noteBatch (h : Traced R key c hist) (e : EngineId) :
    Traced R key (c.noteBatch e) hist := by
  unfold Cluster.noteBatch
  split
  · exact h
  · exact h.record _ rfl

theorem drained_noteBatch {e : EngineId} (hsome : (c.engines e).buffer ≠ []) :
    .drained e (c.engines e).buffer ∈ (c.noteBatch e).log := by
  unfold Cluster.noteBatch
  split
  next hnil => exact absurd hnil hsome
  · exact List.mem_cons_self

theorem Traced.stepLoop (h : Traced R key c hist) {i : ProcId} {e : EngineId} {epoch : Nat}
    {pause : Pause} (hq : c.procs[i]? = some (.loop e epoch pause)) :
    Traced R key (c.stepLoop i e epoch pause) hist := by
  have hknown := h.procs _ (List.mem_of_getElem? hq)
  cases pause with
  | entering =>
    refine h.followLoop (fun point hpoint => ?_) fun pass wait hwait => ?_
    · exact absurd hpoint (Engine.enterLoop_ne_commit _ _ _)
    · exact absurd hwait (Engine.enterLoop_ne_backOff _ _ _ _)
  | resting =>
    rw [Cluster.stepLoop, Engine.wakeLoop]
    split <;>
    · refine h.followLoop (fun point hpoint => ?_) fun pass wait hwait => ?_
      · cases hpoint
      · cases hwait
  | givingWay =>
    have hnoted := h.noteBatch e
    have hengines : (c.noteBatch e).engines = c.engines := engines_noteBatch c e
    refine hnoted.followMove ?_
    rw [← hengines]
    refine hnoted.drain (fun hsome => ?_) epoch c.clock c.ids
    rw [hengines] at hsome ⊢
    exact drained_noteBatch hsome
  | backingOff pass =>
    exact h.followMove (moveKnown_attempt rfl (h.engines e) hknown c.clock c.ids)

theorem Traced.proceed (h : Traced R key c hist) (i : ProcId) :
    Traced R key (c.proceed i) hist := by
  unfold Cluster.proceed
  split
  next hq => exact h.resume hq
  next hq => exact h.stepLoop hq
  next hq =>
    split
    · exact h.enthrone _
    · exact h
  next hq =>
    split
    · exact h.finishBeat _ _
    · exact h
  · exact h

end LeaseQueue.Cluster
