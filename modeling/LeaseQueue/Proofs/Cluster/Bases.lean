import LeaseQueue.Proofs.Cluster.Ages
import LeaseQueue.Proofs.Cluster.EngineSteps
import LeaseQueue.Proofs.Cluster.Revisions
import LeaseQueue.Proofs.Engine.Caches
import LeaseQueue.Proofs.Store.Vouching

/-!
# What a write replaces

An engine makes what it writes of a document that it has under some token, and the write comes
through only if that is the token of the object that is there.  So whatever others put under the
key, a write of an engine replaces the very document that its pass has started from:

  `m.Puts i (.commit e epoch (.writing pass document results expected)) token →`
  `∃ entry base, m.before.memory.entry? key = some entry ∧ Holds entry.data base ∧ …`
-/

namespace LeaseQueue.Cluster

open Engine (Cached Learns Write)

/-- As long as the object has the version of the token, it stands for the document. -/
def Stands (c : Cluster) (e : EngineId) (token : Store.Token) (d : Document) : Prop :=
  c.memory.Vouches (c.engines e).options.stateKey token (Holds · d)

/-- Nobody is mistaken about an object that still has its version. -/
structure Based (c : Cluster) : Prop where
  outfitted : c.Outfitted
  numbered : c.memory.IsNumbered
  answers : ∀ (i : ProcId) (a : Store.Access) (caller : Caller a) (answer : Store.Answer a),
    c.procs[i]? = some (.awaiting caller (.landed answer)) →
    c.memory.Tells (c.callOf caller) answer
  caches : ∀ (e : EngineId) (cached : Cached), (c.engines e).cache = some cached →
    c.Stands e cached.token cached.document
  writes : ∀ (i : ProcId) (e : EngineId) (epoch : Nat) (pass : Engine.Pass) (document : Document)
      (results : List MutationResult) (expected : Store.Token) (flight : Flight .put),
    c.procs[i]? = some (.awaiting (.commit e epoch (.writing pass document results expected))
      flight) →
    ∃ base, c.Stands e expected base ∧
      Write.FoldsOver (c.engines e).options.heartbeatTimeout base ⟨pass.batch, document, results⟩

/-- The caller starts the engine. -/
inductive Caller.Starts (e : EngineId) : {a : Store.Access} → Caller a → Prop where
  | own {a : Store.Access} (point : Engine.Startup a) : Starts e (.start e point)
  | broker {a : Store.Access} {b : BrokerId} (he : e = .ofBroker b) (now : Millis)
    (point : Engine.Startup a) : Starts e (.broker b (.opening now point))

/-- The caller starts the engine, or is one of its loops. -/
inductive Caller.Serves (e : EngineId) : {a : Store.Access} → Caller a → Prop where
  | starts {a : Store.Access} {caller : Caller a} (h : caller.Starts e) : Serves e caller
  | commits {a : Store.Access} (epoch : Nat) (point : Engine.Commit a) :
    Serves e (.commit e epoch point)

/-- The engine takes this from an answer. -/
def Moment.Obtains (m : Moment) (e : EngineId) (cached : Cached) : Prop :=
  ∃ (i : ProcId) (a : Store.Access) (caller : Caller a) (answer : Store.Answer a),
    m.act = .proceed i ∧ caller.Serves e ∧
    m.before.procs[i]? = some (.awaiting caller (.landed answer)) ∧
    Learns (m.before.callOf caller) answer cached

variable {c : Cluster} {i : ProcId} {e : EngineId} {act : Act} {p q : Proc} {cached : Cached}

theorem Stands.step {token : Store.Token} {d : Document} (h : c.Stands e token d) (act : Act) :
    (c.step act).Stands e token d := by
  rw [Stands, engine_options_eq (options_step c act)]
  exact Store.Memory.Vouches.ages h (ages_step act)

/-! ## Caches -/

theorem stands_of_learns {a : Store.Access} {call : Store.Call a} {answer : Store.Answer a}
    {cached : Cached} (htells : c.memory.Tells call answer)
    (hkey : call.key = (c.engines e).options.stateKey) (hlearns : Learns call answer cached) :
    c.Stands e cached.token cached.document := by
  cases hlearns with
  | read hdecode =>
    have hvouches := htells _ rfl
    rw [hkey] at hvouches
    exact hvouches.imp fun data hdata => .inr (hdata ▸ hdecode)
  | put hpayload =>
    have hvouches := htells _ rfl
    rw [hkey] at hvouches
    exact hvouches.imp fun data hdata => .inl (hdata.trans hpayload)

theorem key_startup {a : Store.Access} (point : Engine.Startup a) (o : Engine.Options) :
    (point.call o).key = o.stateKey := by
  cases point <;> rfl

theorem key_commit {a : Store.Access} (point : Engine.Commit a) (o : Engine.Options) :
    (point.call o).key = o.stateKey := by
  cases point <;> rfl

theorem exists_starts {a : Store.Access} {point : Engine.Startup a} {answer : Store.Answer a}
    (houtfitted : c.Outfitted) (h : c.StartAnswered e i point answer) :
    ∃ caller : Caller a, caller.Starts e ∧
      c.procs[i]? = some (.awaiting caller (.landed answer)) ∧
      c.callOf caller = point.call (c.engines e).options := by
  rcases h with hq | ⟨b, now, rfl, hq⟩
  · exact ⟨_, .own point, hq, rfl⟩
  · refine ⟨_, .broker rfl now point, hq, ?_⟩
    rw [houtfitted b]
    rfl

theorem key_of_starts (houtfitted : c.Outfitted) {a : Store.Access} {caller : Caller a}
    (h : caller.Starts e) : (c.callOf caller).key = (c.engines e).options.stateKey := by
  cases h with
  | own point => exact key_startup point _
  | broker he now point =>
    subst he
    rw [houtfitted]
    exact key_startup point _

theorem key_of_serves (houtfitted : c.Outfitted) {a : Store.Access} {caller : Caller a}
    (h : caller.Serves e) : (c.callOf caller).key = (c.engines e).options.stateKey := by
  cases h with
  | starts hstarts => exact key_of_starts houtfitted hstarts
  | commits epoch point => exact key_commit point _

/-- What an engine has is what it had, or comes from an answer. -/
theorem obtains_step (houtfitted : c.Outfitted)
    (h : ((c.step act).engines e).cache = some cached) :
    (c.engines e).cache = some cached ∨ Moment.Obtains ⟨c, act⟩ e cached := by
  have hstart {i : ProcId} {a : Store.Access} {point : Engine.Startup a} {answer : Store.Answer a}
      (hact : act = .proceed i) (hanswered : c.StartAnswered e i point answer)
      (hcache : ((c.engines e).resumeStart point answer).1.cache = some cached) :
      (c.engines e).cache = some cached ∨ Moment.Obtains ⟨c, act⟩ e cached := by
    obtain ⟨caller, hstarts, hq, hcall⟩ := exists_starts houtfitted hanswered
    exact (Engine.resumeStart_cache hcache).imp_right fun hlearns =>
      ⟨i, a, caller, answer, hact, .starts hstarts, hq, hcall ▸ hlearns⟩
  have hstep := engineStep (c := c) (e := e) act
  generalize (c.step act).engines e = engine at hstep h
  cases hstep with
  | stays => exact .inl h
  | submits p => exact .inl (Engine.submit_cache _ p ▸ h)
  | opens => exact .inl (Engine.start_cache _ ▸ h)
  | stops _ hstop => exact .inl (Engine.stop?_cache hstop ▸ h)
  | starts hact hanswered => exact hstart hact hanswered h
  | registers hact hanswered p => exact hstart hact hanswered (Engine.submit_cache _ p ▸ h)
  | drains => exact .inl (Engine.drain_cache _ _ _ _ ▸ h)
  | @commits i epoch a point answer hact hq =>
    exact (Engine.resumeCommit_cache h).imp_right fun hlearns =>
      ⟨i, a, _, answer, hact, .commits epoch point, hq, hlearns⟩

theorem Based.caches_step (h : c.Based) (act : Act)
    (hcached : ((c.step act).engines e).cache = some cached) :
    c.Stands e cached.token cached.document := by
  rcases obtains_step h.outfitted hcached with
    hold | ⟨i, a, caller, answer, -, hserves, hq, hlearns⟩
  · exact h.caches e cached hold
  · have hkey := key_of_serves h.outfitted hserves
    exact stands_of_learns (h.answers i a caller answer hq) hkey hlearns

/-! ## Writes -/

/-- A process that writes made its write of what its engine had, or of what it has just read. -/
inductive WriteStep (c : Cluster) (e : EngineId) (pass : Engine.Pass) (document : Document)
    (results : List MutationResult) (expected : Store.Token) (flight : Flight .put) :
    Proc → Prop where
  | waits {epoch : Nat} : WriteStep c e pass document results expected flight
    (.awaiting (.commit e epoch (.writing pass document results expected)) flight)
  | begins {epoch : Nat} {pause : Pause} {cached : Cached}
    (hcached : (c.engines e).cache = some cached) (htoken : expected = cached.token)
    (hfolds : Write.FoldsOver (c.engines e).options.heartbeatTimeout cached.document
      ⟨pass.batch, document, results⟩) :
    WriteStep c e pass document results expected flight (.loop e epoch pause)
  | goesOn {epoch : Nat} {a : Store.Access} {point : Engine.Commit a} {answer : Store.Answer a}
    {cached : Cached} (hlearns : Learns (point.call (c.engines e).options) answer cached)
    (htoken : expected = cached.token)
    (hfolds : Write.FoldsOver (c.engines e).options.heartbeatTimeout cached.document
      ⟨pass.batch, document, results⟩) :
    WriteStep c e pass document results expected flight
      (.awaiting (.commit e epoch point) (.landed answer))

theorem looping_eq_commit {d : EngineId} {epoch epoch' : Nat} {next : Engine.LoopStep}
    {a : Store.Access} {point : Engine.Commit a} {flight : Flight a}
    (h : c.looping d epoch' next = .awaiting (.commit e epoch point) flight) :
    d = e ∧ next = .commit point ∧ flight = .sent c.memory.options.failure := by
  cases next with
  | commit point' =>
    cases h
    exact ⟨rfl, rfl, rfl⟩
  | rest | giveWay | backOff | leave => cases h

theorem brokering_ne_commit {b : BrokerId} {next : Broker.StartStep} {epoch : Nat}
    {a : Store.Access} {point : Engine.Commit a} {flight : Flight a} :
    c.brokering b next ≠ .awaiting (.commit e epoch point) flight := by
  cases next <;> exact nofun

section Writing

variable {epoch : Nat} {pass : Engine.Pass} {document : Document} {results : List MutationResult}
  {expected : Store.Token} {flight : Flight .put}

theorem writeStep_loop {d : EngineId} {epoch' : Nat} {pause : Pause}
    (h : c.looping d epoch' (c.afterPause d epoch' pause) =
      .awaiting (.commit e epoch (.writing pass document results expected)) flight) :
    c.WriteStep e pass document results expected flight (.loop d epoch' pause) := by
  obtain ⟨rfl, hnext, -⟩ := looping_eq_commit h
  cases pause with
  | entering => exact absurd hnext (Engine.enterLoop_ne_commit _ _ _)
  | resting =>
    rw [afterPause, Engine.wakeLoop] at hnext
    split at hnext <;> cases hnext
  | givingWay =>
    obtain ⟨cached, hcached, htoken, hfolds⟩ := Engine.drain_writing hnext
    exact .begins hcached htoken hfolds
  | backingOff =>
    obtain ⟨cached, hcached, htoken, hfolds⟩ := Engine.attempt_writing hnext
    exact .begins hcached htoken hfolds

theorem writeStep_onward (h : c.onward p =
      .awaiting (.commit e epoch (.writing pass document results expected)) flight) :
    c.WriteStep e pass document results expected flight p := by
  revert h
  fun_cases onward c p
  case case1 a caller answer =>
    intro h
    cases caller with
    | commit d epoch' point =>
      obtain ⟨rfl, hnext, -⟩ := looping_eq_commit h
      obtain ⟨cached, hlearns, htoken, hfolds⟩ := Engine.resumeCommit_writing hnext
      exact .goesOn hlearns htoken hfolds
    | broker b point => exact absurd h brokering_ne_commit
    | start | election | beat =>
      rw [resumed] at h
      split at h <;> cases h
    | client => cases h
  case case2 => exact writeStep_loop
  case case7 =>
    intro h
    cases h
    exact .waits
  all_goals
    intro h
    cases h

theorem newcomer_ne_commit {a : Store.Access} {point : Engine.Commit a} {flight : Flight a} :
    .awaiting (.commit e epoch point) flight ∉ c.newcomers act := by
  intro hmem
  rcases newcomer_cases hmem with heq | ⟨d, epoch, heq⟩ | ⟨a', caller, heq, hbegins⟩
  · cases heq
  · cases heq
  · cases heq
    cases hbegins

theorem Based.writes_step (h : c.Based) (hq : (c.step act).procs[i]? =
      some (.awaiting (.commit e epoch (.writing pass document results expected)) flight)) :
    ∃ base, c.Stands e expected base ∧ Write.FoldsOver (c.engines e).options.heartbeatTimeout base
      ⟨pass.batch, document, results⟩ := by
  cases procStep hq with
  | stays hold => exact h.writes i e epoch pass document results expected _ hold
  | lands _ hold hlanded =>
    cases hlanded
    exact h.writes i e epoch pass document results expected _ hold
  | goesOn _ hold honward =>
    cases writeStep_onward honward.symm with
    | waits => exact h.writes i e _ pass document results expected _ hold
    | begins hcached htoken hfolds =>
      subst htoken
      exact ⟨_, h.caches e _ hcached, hfolds⟩
    | @goesOn _ a point answer cached hlearns htoken hfolds =>
      subst htoken
      exact ⟨_, stands_of_learns (h.answers i _ _ _ hold) (key_commit point _) hlearns, hfolds⟩
  | comes _ hmem => exact absurd hmem newcomer_ne_commit

end Writing

/-! ## Runs -/

theorem Based.step (h : c.Based) (act : Act) : (c.step act).Based where
  outfitted := h.outfitted.of_options (options_step c act)
  numbered := h.numbered.ages (ages_step act)
  answers := by
    intro i a caller answer hq
    rw [callOf_eq_of_options (options_step c act)]
    rcases landed_cases hq with hold | ⟨failure, rfl, hsent, rfl⟩
    · exact (h.answers i a caller answer hold).ages (ages_step act)
    · have hmemory : (c.step (.land i)).memory =
          (c.memory.finish ⟨c.callOf caller, failure⟩).2 := by
        rw [Cluster.step, land, hsent]
        rfl
      rw [hmemory]
      exact Store.Memory.tells_finish h.numbered _ failure
  caches e cached hcached := (h.caches_step act hcached).step act
  writes := by
    intro i e epoch pass document results expected flight hq
    obtain ⟨base, hstands, hfolds⟩ := h.writes_step hq
    rw [engine_options_eq (options_step c act)]
    exact ⟨base, hstands.step act, hfolds⟩

theorem based_init (engines : Nat → Engine.Options) (brokers : BrokerId → Broker.Options)
    {memory : Store.Memory} (hnumbered : memory.IsNumbered) (ids : IdSupply) (clock : Millis) :
    (init engines brokers memory ids clock).Based where
  outfitted _ := rfl
  numbered := hnumbered
  answers := nofun
  caches e cached hcached := by cases e <;> cases hcached
  writes := nofun

theorem Based.run (h : c.Based) (acts : List Act) : (c.run acts).Based :=
  run_induction h (fun _ act hc => hc.step act) acts

/-- **A write replaces what its pass has started from.** -/
theorem Based.replaces {m : Moment} (h : m.before.Based) {epoch : Nat} {pass : Engine.Pass}
    {document : Document} {results : List MutationResult} {expected token : Store.Token}
    (hputs : m.Puts i (.commit e epoch (.writing pass document results expected)) token) :
    ∃ entry base, m.before.memory.entry? (m.before.engines e).options.stateKey = some entry ∧
      Holds entry.data base ∧
      Write.FoldsOver (m.before.engines e).options.heartbeatTimeout base
        ⟨pass.batch, document, results⟩ := by
  obtain ⟨failure, hq, -⟩ := hputs.lands
  obtain ⟨base, hstands, hfolds⟩ := h.writes i e epoch pass document results expected _ hq
  obtain ⟨entry, hentry, hholds⟩ := hstands.of_admits hputs.stored.1
  exact ⟨entry, base, hentry, hholds, hfolds⟩

end LeaseQueue.Cluster
