import LeaseQueue.Proofs.Cluster.Intake
import LeaseQueue.Proofs.Cluster.Openings
import LeaseQueue.Proofs.Cluster.Snapshots
import LeaseQueue.Proofs.Engine.Staffing

/-!
# What a sole writer spends

An engine that runs and writes alone always knows the token of the object: it has cached it, or its
loop has just been told.  So none of its writes conflicts, none of its passes has to read, and each
pass that has something to write calls the store once:

  `List.Forall₂ WritesOnce (c.passCalls e) (c.drained e)`

Writes that fail in any other way leave the object as it was, and what is cached with it.  The one
thing that can come in between is a start that was stopped before it was done: whenever it goes on,
it has the engine cache what it was told, however long ago (`Moment.Misleads`).
-/

namespace LeaseQueue.Cluster

open Engine (Cached Pending)

/-- Nobody else stores anything under the key of the engine.  While it runs nobody stops it, and the
store does not make up conflicts. -/
structure Moment.Undisturbed (m : Moment) (e : EngineId) : Prop where
  writers : ∀ i, m.Stores (m.before.engines e).options.stateKey i → m.before.duty e i ≠ .off
  stops : (m.before.engines e).phase = .running → ¬ m.before.Stops e m.act
  failures : (m.before.engines e).phase = .running →
    ∀ key, m.before.memory.options.failure ≠ some (.conflict key)

/-- This is the token of the object. -/
def IsCurrent (c : Cluster) (e : EngineId) (token : Store.Token) : Prop :=
  ∃ entry, c.memory.entry? (c.engines e).options.stateKey = some entry ∧
    token = toString entry.version

/-- The engine has the token of the object. -/
def IsInformed (c : Cluster) (e : EngineId) : Prop :=
  ∃ cached, (c.engines e).cache = some cached ∧ c.IsCurrent e cached.token

/-- A start that was stopped before it was done goes on while the engine runs, and the engine no
longer has the token of the object. -/
inductive Moment.Misleads (m : Moment) (e : EngineId) : Prop where
  | intro {i : ProcId} {epoch : Nat} (running : (m.before.engines e).phase = .running)
    (proceeds : m.act = .proceed i) (starts : m.before.duty e i = .start epoch)
    (stopped : epoch < (m.before.engines e).epoch) (informed : m.before.IsInformed e)
    (misled : ¬ m.after.IsInformed e)

/-- The call is the first write of the batch. -/
def WritesOnce (call : Sigma Engine.Commit) (batch : List Pending) : Prop :=
  ∃ document results expected, call = ⟨_, .writing ⟨batch, 0⟩ document results expected⟩

/-- What an engine has spent on a run. -/
structure Frugal (start : Cluster) (acts : List Act) (e : EngineId) : Prop where
  /-- No write conflicts, unless the engine was misled. -/
  conflicts : ∀ time epoch (point : Engine.Commit .put) call key,
    .landed time (.commit e epoch point) call (.error (.conflict key)) ∈ (start.run acts).log →
    ∃ m ∈ start.trail acts, m.Misleads e
  /-- Each pass that has taken something writes once, and reads nothing, unless it was misled. -/
  calls : List.Forall₂ WritesOnce ((start.run acts).passCalls e) ((start.run acts).drained e) ∨
    ∃ m ∈ start.trail acts, m.Misleads e
  /-- What is submitted to an engine that is not stopped is accepted. -/
  accepts : ∀ m ∈ start.trail acts, ∀ mutation, m.act = .submit e mutation →
    m.before.isOpen e → (m.before.engines e).phase ≠ .stopped →
    m.after.accepted e = ⟨m.before.tickets, mutation⟩ :: m.before.accepted e
  /-- A pass takes all that was accepted since the one before, in that order. -/
  batches : ∀ m m' batch batch', [m, m'].Sublist (start.trail acts) →
    m.Drains e batch → m'.Drains e batch' → m'.before.drained e = m.after.drained e →
    m'.before.accepted e = batch'.reverse ++ m.after.accepted e
  /-- The first one takes all that was accepted since nothing was there. -/
  first : ∀ earlier between act later batch, acts = earlier ++ (between ++ act :: later) →
    ((start.run earlier).engines e).buffer = [] →
    (∀ m ∈ (start.run earlier).trail between, ¬ m.before.Stops e m.act) →
    Moment.Drains ⟨(start.run earlier).run between, act⟩ e batch →
    ((start.run earlier).run between).drained e = [] →
    ((start.run earlier).run between).accepted e = batch.reverse ++ (start.run earlier).accepted e
  /-- A pass that has nothing to take leaves the store alone. -/
  idle : ∀ m ∈ start.trail acts, ∀ i epoch, m.act = .proceed i →
    m.before.procs[i]? = some (.loop e epoch .givingWay) → (m.before.engines e).buffer = [] →
    m.after.memory = m.before.memory ∧ m.after.log = m.before.log

/-- A write of the object that is there, or that was stored by it. -/
inductive IsSafe (c : Cluster) (e : EngineId) :
    {a : Store.Access} → Engine.Commit a → Flight a → Prop where
  | sent {pass : Engine.Pass} {document : Document} {results : List MutationResult}
    {expected : Store.Token} {failure : Option Store.Error} (h : c.IsCurrent e expected)
    (hfailure : ∀ key, failure ≠ some (.conflict key)) :
    IsSafe c e (.writing pass document results expected) (.sent failure)
  | written {pass : Engine.Pass} {document : Document} {results : List MutationResult}
    {expected token : Store.Token} (h : c.IsCurrent e token) :
    IsSafe c e (.writing pass document results expected) (.landed (.ok token))
  | failed {pass : Engine.Pass} {document : Document} {results : List MutationResult}
    {expected : Store.Token} {cause : Store.Error} (h : ∀ key, cause ≠ .conflict key) :
    IsSafe c e (.writing pass document results expected) (.landed (.error cause))

/-- The loop of the engine has been told that its write came through. -/
def HasWritten (c : Cluster) (e : EngineId) : Prop :=
  ∃ (i : ProcId) (epoch : Nat) (pass : Engine.Pass) (document : Document)
    (results : List MutationResult) (expected token : Store.Token), c.procs[i]? = some (.awaiting
      (.commit e epoch (.writing pass document results expected)) (.landed (.ok token)))

/-- There is one loop at most, and before the engine runs nobody who starts it has been told
anything that is over. -/
structure Single (c : Cluster) (e : EngineId) : Prop where
  present : (c.roster e).IsPresent
  candid : (c.engines e).phase ≠ .running → c.Candid (Caller.Starts e)

/-- Moreover, the loop's writes are safe, and an engine that runs knows the token. -/
structure Tidy (c : Cluster) (e : EngineId) : Prop extends Single c e where
  pauses : ∀ (i : ProcId) (epoch : Nat) (pass : Engine.Pass),
    c.procs[i]? ≠ some (.loop e epoch (.backingOff pass))
  passes : ∀ (i : ProcId) (epoch : Nat) (a : Store.Access) (point : Engine.Commit a)
    (flight : Flight a),
    c.procs[i]? = some (.awaiting (.commit e epoch point) flight) → c.IsSafe e point flight
  knows : (c.engines e).phase = .running → c.IsInformed e ∨ c.HasWritten e
  calls : List.Forall₂ WritesOnce (c.passCalls e) (c.drained e)

variable {start c : Cluster} {acts : List Act} {act : Act} {m m' : Moment} {e : EngineId}
  {i j : ProcId} {epoch : Nat} {p : Proc} {pass : Engine.Pass} {document : Document}
  {results : List MutationResult} {expected token : Store.Token}

/-! ## Tokens -/

theorem IsCurrent.of_entry {c' : Cluster} (h : c.IsCurrent e token)
    (hoptions : c'.options = c.options)
    (hentry : c'.memory.entry? (c.engines e).options.stateKey =
      c.memory.entry? (c.engines e).options.stateKey) : c'.IsCurrent e token := by
  rw [IsCurrent, engine_options_eq hoptions, hentry]
  exact h

theorem IsCurrent.step_of_ne_land (h : c.IsCurrent e token) (hne : ∀ i, act ≠ .land i) :
    (c.step act).IsCurrent e token := by
  refine h.of_entry (options_step c act) ?_
  rw [Store.Memory.entry?, (memory_step_of_ne_land hne).1]
  rfl

theorem Moment.Puts.isCurrent {caller : Caller .put} (h : m.Puts i caller token)
    (hkey : (m.before.callOf caller).key = (m.before.engines e).options.stateKey) :
    m.after.IsCurrent e token := by
  obtain ⟨rfl, -, hentry⟩ := h.lookup
  rw [IsCurrent, Moment.after, engine_options_eq (options_step m.before m.act), ← hkey]
  exact ⟨_, (hentry _).trans (if_pos rfl), rfl⟩

/-! ## Writers -/

theorem serves_of_duty {a : Store.Access} {caller : Caller a} {flight : Flight a}
    (h : Proc.duty e (.awaiting caller flight) ≠ .off) : caller.Serves e := by
  have hite {q : Prop} [Decidable q] {d : Engine.Duty} (hd : (if q then d else .off) ≠ .off) : q :=
    ((ite_off_iff (P := (· ≠ .off)) (· rfl)).1 hd).1
  cases caller with
  | start d point =>
    obtain rfl : d = e := hite h
    exact .starts (.own point)
  | broker b point =>
    cases point with
    | electing => exact absurd rfl h
    | opening now point => exact .starts (.broker (hite (q := .ofBroker b = e) h).symm now point)
  | commit d epoch point =>
    obtain rfl : d = e := by cases flight <;> exact hite h
    exact .commits epoch point
  | election | beat | client => exact absurd rfl h

/-- An object that is there is replaced only by a write of the engine. -/
theorem Moment.Undisturbed.puts_of_ne (h : m.Undisturbed e) (hcurrent : m.before.IsCurrent e token)
    (hne : m.after.memory.entry? (m.before.engines e).options.stateKey ≠
      m.before.memory.entry? (m.before.engines e).options.stateKey) :
    ∃ i epoch pass document results expected token,
      m.Puts i (.commit e epoch (.writing pass document results expected)) token := by
  obtain ⟨i, caller, token, hputs, hkey⟩ := Moment.stores_of_ne hne
  have hduty := h.writers i ⟨caller, token, hputs, hkey⟩
  obtain ⟨failure, hq, -⟩ := hputs.lands
  rw [duty_of_getElem? hq] at hduty
  -- A start only creates, and there is an object already.
  have hcreates (hnone : m.before.memory.entry? (m.before.callOf caller).key = none) : False := by
    obtain ⟨entry, hentry, -⟩ := hcurrent
    rw [hkey] at hnone
    cases hentry.symm.trans hnone
  cases serves_of_duty hduty with
  | starts hstarts =>
    have hadmits := hputs.stored.1
    cases hstarts with
    | own point =>
      cases point
      exact absurd hadmits hcreates
    | broker he now point =>
      cases point
      exact absurd hadmits hcreates
  | commits epoch point =>
    cases point
    exact ⟨i, epoch, _, _, _, _, token, hputs⟩

/-! ## Loops -/

theorem duty_of_commit {a : Store.Access} {point : Engine.Commit a} {flight : Flight a}
    (hq : c.procs[i]? = some (.awaiting (.commit e epoch point) flight)) :
    ∃ s, c.duty e i = .loop epoch s := by
  rw [duty_of_getElem? hq]
  cases flight with
  | sent failure => exact ⟨_, if_pos rfl⟩
  | landed answer => exact ⟨_, if_pos rfl⟩

theorem duty_of_starts {a : Store.Access} {caller : Caller a} {flight : Flight a}
    (hstarts : caller.Starts e) (hq : c.procs[i]? = some (.awaiting caller flight)) :
    ∃ n, c.duty e i = .start n := by
  rw [duty_of_getElem? hq]
  cases hstarts with
  | own point => exact ⟨_, if_pos rfl⟩
  | broker he now point => exact ⟨_, if_pos he.symm⟩

theorem duty_of_loop {pause : Pause} (hq : c.procs[i]? = some (.loop e epoch pause)) :
    ∃ s, c.duty e i = .loop epoch s :=
  ⟨_, (duty_of_getElem? hq).trans (if_pos rfl)⟩

/-- A loop whose write is over goes on without a call. -/
theorem IsSafe.rests {a : Store.Access} {point : Engine.Commit a} {answer : Store.Answer a}
    (h : c.IsSafe e point (.landed answer)) (engine : Engine) (epoch : Nat) (now : Millis)
    (ids : IdSupply) : ∃ engine' : Engine,
      (engine.resumeCommit epoch now ids point answer).next = engine'.enterLoop epoch := by
  cases h with
  | written h => exact ⟨_, rfl⟩
  | @failed _ _ _ _ cause h =>
    cases cause with
    | conflict key => exact absurd rfl (h key)
    | backend | misconfigured => exact ⟨_, rfl⟩

theorem calls_enterLoop (engine : Engine) (epoch : Nat) : (engine.enterLoop epoch).calls = [] := by
  unfold Engine.enterLoop
  split <;> rfl

/-- What is drained is written over what the engine has. -/
theorem drain_of_cached {engine : Engine} {cached : Cached} (hcached : engine.cache = some cached)
    (hbuffer : engine.buffer ≠ []) (epoch : Nat) (now : Millis) (ids : IdSupply) :
    ∃ document results, (engine.drain epoch now ids).next =
      .commit (.writing ⟨engine.buffer, 0⟩ document results cached.token) := by
  rw [Engine.drain_of_ne_nil hbuffer, Engine.attempt]
  simp only [hcached]
  exact ⟨_, _, rfl⟩

theorem looping_eq_backingOff {d : EngineId} {epoch' : Nat} {next : Engine.LoopStep}
    (h : c.looping d epoch' next = .loop e epoch (.backingOff pass)) :
    d = e ∧ ∃ wait, next = .backOff pass wait := by
  cases next with
  | backOff pass' wait =>
    cases h
    exact ⟨rfl, wait, rfl⟩
  | rest | giveWay | commit | leave => cases h

theorem afterPause_ne_backOff {pause : Pause} {wait : Nat} :
    c.afterPause e epoch pause ≠ .backOff pass wait := by
  have hattempt (engine : Engine) (pass' : Engine.Pass) :
      (engine.attempt pass' c.clock c.ids).next ≠ .backOff pass wait := by
    fun_cases Engine.attempt engine pass' c.clock c.ids
    all_goals
      intro h
      cases h
  cases pause with
  | entering => exact Engine.enterLoop_ne_backOff _ _ _ _
  | resting =>
    intro h
    rw [afterPause, Engine.wakeLoop] at h
    split at h <;> cases h
  | givingWay =>
    rw [afterPause]
    by_cases hbuffer : (c.engines e).buffer = []
    · rw [Engine.drain_of_nil hbuffer]
      exact Engine.enterLoop_ne_backOff _ _ _ _
    · rw [Engine.drain_of_ne_nil hbuffer]
      exact hattempt _ _
  | backingOff pass' => exact hattempt _ _

theorem IsSafe.step_of_ne_land {a : Store.Access} {point : Engine.Commit a} {flight : Flight a}
    (h : c.IsSafe e point flight) (hne : ∀ i, act ≠ .land i) :
    (c.step act).IsSafe e point flight := by
  cases h with
  | sent h hfailure => exact .sent (h.step_of_ne_land hne) hfailure
  | written h => exact .written (h.step_of_ne_land hne)
  | failed h => exact .failed h

/-! ## One loop at a time -/

namespace Single

variable (h : c.Single e)
  (hwell : (c.roster e).WellFormed (c.engines e).options.maxRetries.toNat)

include h hwell

theorem running_of_commit {a : Store.Access} {point : Engine.Commit a} {flight : Flight a}
    (hq : c.procs[i]? = some (.awaiting (.commit e epoch point) flight)) :
    (c.engines e).phase = .running := by
  obtain ⟨s, hduty⟩ := duty_of_commit hq
  exact h.present.running hwell hduty

theorem running_of_loop {pause : Pause} (hq : c.procs[i]? = some (.loop e epoch pause)) :
    (c.engines e).phase = .running := by
  obtain ⟨s, hduty⟩ := duty_of_loop hq
  exact h.present.running hwell hduty

variable (houtfitted : c.Outfitted) (hcalm : Moment.Undisturbed ⟨c, act⟩ e)

include houtfitted hcalm

/-- An object is replaced only by a loop, and then the engine runs. -/
theorem candid_step (hnot : ((c.step act).engines e).phase ≠ .running) :
    (c.step act).Candid (Caller.Starts e) := by
  have hbefore : (c.engines e).phase ≠ .running :=
    fun hrunning => hnot (running_step hwell hrunning (hcalm.stops hrunning))
  intro i a caller answer hstarts hq
  rcases landed_cases hq with hold | ⟨failure, rfl, hsent, rfl⟩
  · have hshows := h.candid hbefore i a caller answer hstarts hold
    rw [callOf_eq_of_options (options_step c act)]
    refine hshows.of_remains fun entry hentry => ?_
    rw [key_of_starts houtfitted hstarts] at hentry ⊢
    by_contra hne
    obtain ⟨j, epoch, pass, document, results, expected, token, hputs⟩ :=
      hcalm.puts_of_ne ⟨entry, hentry, rfl⟩ (fun heq => hne (heq.trans hentry))
    obtain ⟨failure, hsent, -⟩ := hputs.lands
    exact hbefore (h.running_of_commit hwell hsent)
  · exact shows_land hsent

theorem step : (c.step act).Single e where
  present := by
    rcases step_or_begin (c := c) (e := e) act with hstep | ⟨-, i, hbegin⟩
    · exact h.present.step hwell hstep fun hrunning =>
        running_step hwell hrunning (hcalm.stops hrunning)
    · exact h.present.begin hwell hbegin
  candid := h.candid_step hwell houtfitted hcalm

end Single

/-! ## What one step leaves tidy -/

namespace Tidy

variable (h : c.Tidy e)

include h

/-- No pass goes on into a pause after a conflict. -/
theorem onward_ne_backingOff (hp : c.procs[i]? = some p) :
    c.onward p ≠ .loop e epoch (.backingOff pass) := by
  revert hp
  fun_cases onward c p
  case case1 a caller answer =>
    intro hp heq
    cases caller with
    | commit d epoch' point =>
      obtain ⟨rfl, wait, hwait⟩ := looping_eq_backingOff heq
      obtain ⟨engine, hrests⟩ :=
        (h.passes _ _ _ _ _ hp).rests (c.engines d) epoch' c.clock c.ids
      exact Engine.enterLoop_ne_backOff _ _ _ _ (hrests.symm.trans hwait)
    | broker b point =>
      rw [resumed] at heq
      generalize (Broker.resumeStart _ _ point answer).2 = next at heq
      cases next <;> cases heq
    | start | election | beat =>
      rw [resumed] at heq
      split at heq <;> cases heq
    | client => cases heq
  case case2 d epoch' pause =>
    intro _ heq
    obtain ⟨rfl, wait, hwait⟩ := looping_eq_backingOff heq
    exact afterPause_ne_backOff hwait
  all_goals
    intro _ heq
    cases heq

theorem pauses_step : (c.step act).procs[j]? ≠ some (.loop e epoch (.backingOff pass)) := by
  intro hq
  cases procStep hq with
  | stays hold => exact h.pauses _ _ _ hold
  | lands _ _ hlanded => cases hlanded
  | goesOn _ hold honward => exact h.onward_ne_backingOff hold honward.symm
  | comes _ hmem =>
    rcases newcomer_cases hmem with heq | ⟨d, n, heq⟩ | ⟨a, caller, heq, -⟩ <;> cases heq

variable (hwell : (c.roster e).WellFormed (c.engines e).options.maxRetries.toNat)

include hwell

/-- A loop that does not wait for the store has nothing to be told. -/
theorem informed_of_loop {pause : Pause} (hq : c.procs[i]? = some (.loop e epoch pause)) :
    c.IsInformed e := by
  obtain ⟨s, hduty⟩ := duty_of_loop hq
  rcases h.knows (h.running_of_loop hwell hq) with
    hinformed | ⟨j, epoch', pass, document, results, expected, token, hq'⟩
  · exact hinformed
  · obtain ⟨s', hduty'⟩ := duty_of_commit hq'
    obtain rfl := h.present.unique hwell hduty hduty'
    cases hq.symm.trans hq'

variable (hcalm : Moment.Undisturbed ⟨c, act⟩ e)

include hcalm

/-- A pass begins with a safe write. -/
theorem isSafe_onward {a : Store.Access} {point : Engine.Commit a} {flight : Flight a}
    (hp : c.procs[i]? = some p) (honward : c.onward p = .awaiting (.commit e epoch point) flight) :
    c.IsSafe e point flight := by
  revert hp honward
  fun_cases onward c p
  case case1 a' caller answer =>
    intro hp heq
    cases caller with
    | commit d epoch' point' =>
      obtain ⟨rfl, hnext, -⟩ := looping_eq_commit heq
      obtain ⟨engine, hrests⟩ :=
        (h.passes _ _ _ _ _ hp).rests (c.engines d) epoch' c.clock c.ids
      exact absurd (hrests.symm.trans hnext) (Engine.enterLoop_ne_commit _ _ _)
    | broker b point => exact absurd heq brokering_ne_commit
    | start | election | beat =>
      rw [resumed] at heq
      split at heq <;> cases heq
    | client => cases heq
  case case2 d epoch' pause =>
    intro hp heq
    obtain ⟨rfl, hnext, rfl⟩ := looping_eq_commit heq
    cases pause with
    | entering => exact absurd hnext (Engine.enterLoop_ne_commit _ _ _)
    | resting =>
      rw [afterPause, Engine.wakeLoop] at hnext
      split at hnext <;> cases hnext
    | backingOff pass => exact absurd hp (h.pauses _ _ _)
    | givingWay =>
      obtain ⟨cached, hcached, hcurrent⟩ := h.informed_of_loop hwell hp
      rw [afterPause] at hnext
      by_cases hbuffer : (c.engines d).buffer = []
      · rw [Engine.drain_of_nil hbuffer] at hnext
        exact absurd hnext (Engine.enterLoop_ne_commit _ _ _)
      · obtain ⟨document, results, hwriting⟩ :=
          drain_of_cached hcached hbuffer epoch' c.clock c.ids
        rw [hwriting] at hnext
        cases hnext
        exact .sent hcurrent (hcalm.failures (h.running_of_loop hwell hp))
  case case7 =>
    intro hp heq
    cases heq
    exact h.passes _ _ _ _ _ hp
  all_goals
    intro hp heq
    cases heq

/-- The object is not replaced under a loop that does not move. -/
theorem isCurrent_stays {a : Store.Access} {point : Engine.Commit a} {flight : Flight a}
    (hold : c.procs[j]? = some (.awaiting (.commit e epoch point) flight))
    (hq : (c.step act).procs[j]? = some (.awaiting (.commit e epoch point) flight))
    (hcurrent : c.IsCurrent e token) : (c.step act).IsCurrent e token := by
  refine hcurrent.of_entry (options_step c act) ?_
  by_contra hne
  obtain ⟨i, epoch', pass, document, results, expected, token', hputs⟩ :=
    hcalm.puts_of_ne hcurrent hne
  obtain ⟨failure, hsent, -⟩ := hputs.lands
  obtain ⟨s, hduty⟩ := duty_of_commit hold
  obtain ⟨s', hduty'⟩ := duty_of_commit hsent
  obtain rfl := h.present.unique hwell hduty hduty'
  cases hold.symm.trans hsent
  cases hq.symm.trans hputs.landed

variable (hnumbered : c.memory.IsNumbered) (hcounted : c.memory.lastVersion < UInt64.size)

include hnumbered hcounted

theorem passes_step {a : Store.Access} {point : Engine.Commit a} {flight : Flight a}
    (hq : (c.step act).procs[j]? = some (.awaiting (.commit e epoch point) flight)) :
    (c.step act).IsSafe e point flight := by
  cases procStep hq with
  | stays hold =>
    cases h.passes _ _ _ _ _ hold with
    | sent hcurrent hfailure =>
      exact .sent (h.isCurrent_stays hwell hcalm hold hq hcurrent) hfailure
    | written hcurrent => exact .written (h.isCurrent_stays hwell hcalm hold hq hcurrent)
    | failed hcause => exact .failed hcause
  | @lands _ _ failure hact hold hlanded =>
    cases hlanded
    cases h.passes _ _ _ _ _ hold with
    | @sent pass document results expected _ hcurrent hfailure =>
      cases failure with
      | some cause => exact .failed fun key heq => hfailure key (congrArg some heq)
      | none =>
        obtain ⟨entry, hentry, rfl⟩ := hcurrent
        have hversion := Nat.lt_of_le_of_lt (hnumbered _ _ hentry) hcounted
        have hadmits : c.memory.Admits (c.callOf (.commit e epoch
            (.writing pass document results (toString entry.version)))) :=
          ⟨entry, hentry, Store.Memory.parseVersion?_toString hversion⟩
        have hfinish := Store.Memory.finish_of_admits hadmits
        have hputs : Moment.Puts ⟨c, act⟩ j _ _ := ⟨hact, none, hold, congrArg Prod.fst hfinish⟩
        rw [hfinish]
        exact .written (hputs.isCurrent rfl)
  | goesOn hact hold honward =>
    subst hact
    exact (h.isSafe_onward hwell hcalm hold honward.symm).step_of_ne_land nofun
  | comes _ hmem => exact absurd hmem newcomer_ne_commit

end Tidy

/-- An engine that starts to run has just been told the token. -/
theorem informed_of_starts (houtfitted : c.Outfitted) (hcandid : c.Candid (Caller.Starts e))
    (hnot : (c.engines e).phase ≠ .running)
    (hrunning : ((c.step act).engines e).phase = .running) : (c.step act).IsInformed e := by
  have hstarts {i : ProcId} {a : Store.Access} {point : Engine.Startup a} {answer : Store.Answer a}
      {engine : Engine} (hact : act = .proceed i) (hanswered : c.StartAnswered e i point answer)
      (hphase : ((c.engines e).resumeStart point answer).1.phase = .running)
      (hcache : engine.cache = ((c.engines e).resumeStart point answer).1.cache) :
      ∃ cached, engine.cache = some cached ∧ (c.step act).IsCurrent e cached.token := by
    obtain hold | ⟨cached, hcached, hlearns⟩ := Engine.resumeStart_running hphase
    · exact absurd hold hnot
    · obtain ⟨caller, hcaller, hq, hcall⟩ := exists_starts houtfitted hanswered
      obtain ⟨entry, hentry, htoken, -⟩ := mirrors_of_learns (hcandid i _ caller _ hcaller hq)
        (key_of_starts houtfitted hcaller) (hcall ▸ hlearns)
      have hcurrent : c.IsCurrent e cached.token := ⟨entry, hentry, htoken⟩
      exact ⟨cached, hcache.trans hcached, hcurrent.step_of_ne_land (hact ▸ nofun)⟩
  have hstep := engineStep (c := c) (e := e) act
  rw [IsInformed]
  generalize (c.step act).engines e = engine at hstep hrunning
  cases hstep with
  | stays => exact absurd hrunning hnot
  | submits p => exact absurd ((submit_life _ p).1.symm.trans hrunning) hnot
  | opens =>
    unfold Engine.start at hrunning
    split at hrunning
    · cases hrunning
    · exact absurd hrunning hnot
  | stops _ hstop =>
    simp only [Engine.stop?] at hstop
    split at hstop <;> cases hstop
    cases hrunning
  | starts hact hanswered => exact hstarts hact hanswered hrunning rfl
  | registers hact hanswered p =>
    exact hstarts hact hanswered ((submit_life _ p).1.symm.trans hrunning)
      (Engine.submit_cache _ p)
  | drains => exact absurd ((drain_life _ _ _ _).1.symm.trans hrunning) hnot
  | @commits i epoch a point answer =>
    obtain ⟨hcontrol, -⟩ := (c.engines e).resumeCommit_move epoch c.clock c.ids point answer
    exact absurd ((congrArg Engine.Control.phase hcontrol).symm.trans hrunning) hnot

namespace Tidy

variable (h : c.Tidy e)

include h

/-- Nothing makes the engine forget the token. -/
theorem uncached_step (hnone : ((c.step act).engines e).cache = none) :
    (c.engines e).cache = none := by
  have hstep := engineStep (c := c) (e := e) act
  generalize (c.step act).engines e = engine at hstep hnone
  cases hstep with
  | stays => exact hnone
  | submits p => exact Engine.submit_cache _ p ▸ hnone
  | opens => exact Engine.start_cache _ ▸ hnone
  | stops _ hstop => exact Engine.stop?_cache hstop ▸ hnone
  | starts => exact Engine.resumeStart_uncached hnone
  | registers _ _ p => exact Engine.resumeStart_uncached (Engine.submit_cache _ p ▸ hnone)
  | drains => exact Engine.drain_cache _ _ _ _ ▸ hnone
  | @commits i epoch a point answer _ hq =>
    cases h.passes _ _ _ _ _ hq with
    | written => cases hnone
    | @failed _ _ _ _ cause hcause =>
      cases cause with
      | conflict key => exact absurd rfl (hcause key)
      | backend | misconfigured => exact hnone

variable (hbased : c.Based) (hcalm : Moment.Undisturbed ⟨c, act⟩ e)
  (hwell : (c.roster e).WellFormed (c.engines e).options.maxRetries.toNat)

include hbased hwell

/-- As long as the object is there, the engine has its token, unless it is misled. -/
theorem informed_step (hrunning : (c.engines e).phase = .running) (hinformed : c.IsInformed e)
    (hled : ¬ Moment.Misleads ⟨c, act⟩ e)
    (hsame : (c.step act).memory.entry? (c.engines e).options.stateKey =
      c.memory.entry? (c.engines e).options.stateKey) : (c.step act).IsInformed e := by
  obtain ⟨old, hold, hcurrent⟩ := id hinformed
  cases hcached : ((c.step act).engines e).cache with
  | none => cases hold.symm.trans (h.uncached_step hcached)
  | some cached =>
    have hstays (htoken : c.IsCurrent e cached.token) : (c.step act).IsInformed e :=
      ⟨cached, hcached, htoken.of_entry (options_step c act) hsame⟩
    rcases obtains_step hbased.outfitted hcached with
      hkept | ⟨i, a, caller, answer, hact, hserves, hq, hlearns⟩
    · obtain rfl := Option.some.inj (hold.symm.trans hkept)
      exact hstays hcurrent
    · cases hserves with
      | starts hstarts =>
        obtain ⟨n, hduty⟩ := duty_of_starts hstarts hq
        by_contra hnot
        exact hled (.intro hrunning hact hduty (hwell.lt_of_start hduty hrunning) hinformed hnot)
      | commits epoch point =>
        cases h.passes _ _ _ _ _ hq with
        | written htoken =>
          cases hlearns
          exact hstays htoken
        | failed => cases hlearns

include hcalm

theorem knows_step (hled : ¬ Moment.Misleads ⟨c, act⟩ e)
    (hrunning' : ((c.step act).engines e).phase = .running) :
    (c.step act).IsInformed e ∨ (c.step act).HasWritten e := by
  by_cases hrunning : (c.engines e).phase = .running
  · rcases h.knows hrunning with
      hinformed | ⟨j, epoch, pass, document, results, expected, token, hq⟩
    · obtain ⟨cached, -, hcurrent⟩ := id hinformed
      by_cases hsame : (c.step act).memory.entry? (c.engines e).options.stateKey =
          c.memory.entry? (c.engines e).options.stateKey
      · exact .inl (h.informed_step hbased hwell hrunning hinformed hled hsame)
      · obtain ⟨i, epoch, pass, document, results, expected, token, hputs⟩ :=
          hcalm.puts_of_ne hcurrent hsame
        exact .inr ⟨i, epoch, pass, document, results, expected, token, hputs.landed⟩
    · by_cases hact : act = .proceed j
      · subst hact
        cases h.passes _ _ _ _ _ hq with
        | written hcurrent =>
          exact .inl ⟨_, cache_of_landed hq, hcurrent.step_of_ne_land nofun⟩
      · exact .inr ⟨j, epoch, pass, document, results, expected, token,
          getElem?_step_of_landed hq hact⟩
  · exact .inl (informed_of_starts hbased.outfitted (h.candid hrunning) hrunning hrunning')

omit hbased hcalm in
/-- A pass that takes something calls the store once, and no other pass does. -/
theorem calls_step :
    List.Forall₂ WritesOnce ((c.step act).passCalls e) ((c.step act).drained e) := by
  have hstep := intakeStep (c := c) (e := e) act
  show List.Forall₂ WritesOnce ((c.step act).intake e).calls ((c.step act).intake e).drained
  generalize (c.step act).intake e = intake at hstep
  cases hstep with
  | stays | takes | rejects => exact h.calls
  | @drains i epoch hact hq hbuffer =>
    obtain ⟨cached, hcached, -⟩ := h.informed_of_loop hwell hq
    obtain ⟨document, results, hwriting⟩ := drain_of_cached hcached hbuffer epoch c.clock c.ids
    rw [hwriting]
    exact .cons ⟨document, results, cached.token, rfl⟩ h.calls
  | retries _ hq => exact absurd hq (h.pauses _ _ _)
  | @commits i epoch a point answer hact hq =>
    obtain ⟨engine, hrests⟩ := (h.passes _ _ _ _ _ hq).rests (c.engines e) epoch c.clock c.ids
    rw [hrests, calls_enterLoop]
    exact h.calls

theorem step (hled : ¬ Moment.Misleads ⟨c, act⟩ e)
    (hcounted : c.memory.lastVersion < UInt64.size) : (c.step act).Tidy e where
  toSingle := h.toSingle.step hwell hbased.outfitted hcalm
  pauses _ _ _ := h.pauses_step
  passes _ _ _ _ _ hq := h.passes_step hwell hcalm hbased.numbered hcounted hq
  knows := h.knows_step hbased hcalm hwell hled
  calls := h.calls_step hwell

end Tidy

/-! ## Runs -/

/-- Whoever is not stopped while it runs goes on running. -/
theorem running_run (hwell : (c.roster e).WellFormed (c.engines e).options.maxRetries.toNat)
    (hrunning : (c.engines e).phase = .running)
    (hcalm : ∀ m ∈ c.trail acts, m.Undisturbed e) :
    ∀ m ∈ c.trail acts, ¬ m.before.Stops e m.act := by
  induction acts generalizing c with
  | nil => exact List.forall_mem_nil _
  | cons act acts ih =>
    obtain ⟨hfirst, hrest⟩ := List.forall_mem_cons.1 hcalm
    have hstops := hfirst.stops hrunning
    exact List.forall_mem_cons.2
      ⟨hstops, ih (wellFormed_step hwell act) (running_step hwell hrunning hstops) hrest⟩

theorem step_of_idle (hq : c.procs[i]? = some (.loop e epoch .givingWay))
    (hbuffer : (c.engines e).buffer = []) :
    (c.step (.proceed i)).memory = c.memory ∧ (c.step (.proceed i)).log = c.log := by
  rw [step, proceed, hq]
  dsimp only
  rw [stepLoop, noteBatch_of_nil hbuffer, Engine.drain_of_nil hbuffer, followMove,
    Engine.enterLoop]
  split <;> exact ⟨rfl, rfl⟩

/-- What is taken is what was accepted since nothing was there. -/
theorem accepted_of_drains {batch : List Pending} (hbuffer : (c.engines e).buffer = [])
    (hstops : ∀ m ∈ c.trail acts, ¬ m.before.Stops e m.act)
    (hdrains : Moment.Drains ⟨c.run acts, act⟩ e batch)
    (hsame : (c.run acts).drained e = c.drained e) :
    (c.run acts).accepted e = batch.reverse ++ c.accepted e := by
  obtain ⟨new, haccepted, hnow⟩ := accepted_run hstops hsame
  obtain ⟨-, rfl, -⟩ := hdrains.takes
  rw [hnow, hbuffer, List.nil_append]
  exact haccepted

/-- Between two passes nobody stops the engine, since it runs when the first one begins. -/
theorem Single.accepted_between (h : m.before.Single e)
    (hwell : (m.before.roster e).WellFormed (m.before.engines e).options.maxRetries.toNat)
    (hcalm : ∀ m' ∈ m.before.trail (m.act :: acts), m'.Undisturbed e) {batch batch' : List Pending}
    (hdrains : m.Drains e batch) (hdrains' : Moment.Drains ⟨m.after.run acts, act⟩ e batch')
    (hsame : (m.after.run acts).drained e = m.after.drained e) :
    (m.after.run acts).accepted e = batch'.reverse ++ m.after.accepted e := by
  obtain ⟨⟨i, epoch, -, hq⟩, -, hbuffer⟩ := hdrains.takes
  obtain ⟨hfirst, hrest⟩ := List.forall_mem_cons.1 hcalm
  have hrunning := h.running_of_loop hwell hq
  have hafter : (m.after.engines e).phase = .running :=
    running_step hwell hrunning (hfirst.stops hrunning)
  have hstops := running_run (wellFormed_step hwell m.act) hafter hrest
  exact accepted_of_drains hbuffer hstops hdrains' hsame

/-- An engine whose writes are safe is told of no conflict. -/
theorem Tidy.not_conflict (h : m.after.Tidy e) {point : Engine.Commit .put} {key : String} :
    ¬ m.Answers i (.commit e epoch point) (.error (.conflict key)) := by
  intro hanswers
  cases h.passes _ _ _ _ _ hanswers.landed with
  | failed h => exact h key rfl

theorem tidy_init (engines : Nat → Engine.Options) (brokers : BrokerId → Broker.Options)
    (memory : Store.Memory) (ids : IdSupply) (clock : Millis) (e : EngineId) :
    (init engines brokers memory ids clock).Tidy e where
  present := roster_init engines brokers memory ids clock e ▸ Engine.Roster.isPresent_empty
  candid _ := nofun
  pauses := nofun
  passes := nofun
  knows := by cases e <;> exact nofun
  calls := .nil

section Runs

variable (hbased : c.Based)
  (hwell : (c.roster e).WellFormed (c.engines e).options.maxRetries.toNat)
  (hcalm : ∀ m ∈ c.trail acts, m.Undisturbed e)

include hbased hwell hcalm

theorem Single.run (h : c.Single e) : ∀ m ∈ c.trail acts, m.before.Single e := by
  induction acts generalizing c with
  | nil => exact List.forall_mem_nil _
  | cons act acts ih =>
    obtain ⟨hfirst, hrest⟩ := List.forall_mem_cons.1 hcalm
    have hnext := h.step hwell hbased.outfitted hfirst
    exact List.forall_mem_cons.2
      ⟨h, ih (hbased.step act) (wellFormed_step hwell act) hrest hnext⟩

theorem Tidy.run (h : c.Tidy e) (hled : ∀ m ∈ c.trail acts, ¬ m.Misleads e)
    (hcounted : (c.run acts).memory.lastVersion < UInt64.size) :
    (∀ m ∈ c.trail acts, m.after.Tidy e) ∧ (c.run acts).Tidy e := by
  induction acts generalizing c with
  | nil => exact ⟨List.forall_mem_nil _, h⟩
  | cons act acts ih =>
    obtain ⟨hfirst, hrest⟩ := List.forall_mem_cons.1 hcalm
    obtain ⟨hledFirst, hledRest⟩ := List.forall_mem_cons.1 hled
    have hbefore := Nat.lt_of_le_of_lt (ages_run (act :: acts)).lastVersion hcounted
    have hnext := h.step hbased hfirst hwell hledFirst hbefore
    obtain ⟨hall, hlast⟩ :=
      ih (hbased.step act) (wellFormed_step hwell act) hrest hnext hledRest hcounted
    exact ⟨List.forall_mem_cons.2 ⟨hnext, hall⟩, hlast⟩

end Runs

/-- What an engine accepts is noted. -/
theorem accepted_submit {mutation : Mutation} (hopen : c.isOpen e)
    (hphase : (c.engines e).phase ≠ .stopped) :
    (c.step (.submit e mutation)).accepted e = ⟨c.tickets, mutation⟩ :: c.accepted e := by
  rw [step, if_pos hopen, submit]
  simp only [Engine.submit, if_neg hphase]
  exact List.filterMap_cons_some (if_pos rfl)

/-- **An engine that runs and writes alone takes all that was submitted since its last pass.  It
meets no conflict, never reads, and writes once for each pass**, unless a start that was stopped
before it was done has misled it. -/
theorem frugal_run (engines : Nat → Engine.Options) (brokers : BrokerId → Broker.Options)
    (memory : Store.Memory) (ids : IdSupply) (clock : Millis) (acts : List Act) (e : EngineId)
    (hnumbered : memory.IsNumbered) :
    let start := init engines brokers memory ids clock
    (∀ m ∈ start.trail acts, m.Undisturbed e) →
    (start.run acts).memory.lastVersion < UInt64.size → Frugal start acts e := by
  intro start hcalm hcounted
  have hwell (acts : List Act) :=
    wellFormed_run_init engines brokers memory ids clock acts e
  have hbased : start.Based := based_init engines brokers hnumbered ids clock
  have hinit : start.Tidy e := tidy_init engines brokers memory ids clock e
  have htidy (hnone : ¬ ∃ m ∈ start.trail acts, m.Misleads e) :
      (∀ m ∈ start.trail acts, m.after.Tidy e) ∧ (start.run acts).Tidy e :=
    hinit.run hbased (hwell []) hcalm (fun m hm hmisleads => hnone ⟨m, hm, hmisleads⟩) hcounted
  constructor
  case conflicts =>
    intro time epoch point call key hmem
    by_contra hnone
    rcases exists_moment (P := fun c => Event.landed time (.commit e epoch point) call
        (.error (.conflict key)) ∈ c.log) (fun _ => landing_step rfl) hmem with
      hfirst | ⟨m, hm, i, a, caller, answer, hanswers, heq⟩
    · cases hfirst
    · cases heq
      exact ((htidy hnone).1 m hm).not_conflict hanswers
  case calls =>
    by_cases hled : ∃ m ∈ start.trail acts, m.Misleads e
    · exact .inr hled
    · exact .inl (htidy hled).2.calls
  case accepts =>
    intro m _ mutation hact hopen hphase
    rw [Moment.after, hact]
    exact accepted_submit hopen hphase
  case batches =>
    rintro m ⟨_, act⟩ batch batch' horder hdrains hdrains' hsame
    obtain ⟨earlier, between, later, hacts, hbefore, rfl⟩ := sublist_trail.1 horder
    have hfirst := hinit.toSingle.run hbased (hwell []) hcalm m (horder.subset List.mem_cons_self)
    refine hfirst.accepted_between (hbefore ▸ hwell earlier) (fun m' hm' => hcalm m' ?_) hdrains
      hdrains' hsame
    rw [hacts, trail_append, ← hbefore, ← List.cons_append, trail_append]
    exact List.mem_append_right _ (List.mem_append_left _ hm')
  case first =>
    intro earlier between act later batch _ hbuffer hstops hdrains hnone
    have hsuffix := drained_suffix_run (c := start.run earlier) (e := e) between
    rw [hnone, List.suffix_nil] at hsuffix
    exact accepted_of_drains hbuffer hstops hdrains (hnone.trans hsuffix.symm)
  case idle =>
    intro m hm i epoch hact hq hbuffer
    rw [Moment.after, hact]
    exact step_of_idle hq hbuffer

/-- Whoever stops an engine without a broker calls it. -/
theorem Stops.eq_of_lone {n : Nat} (h : c.Stops (.lone n) act) : act = .stopEngine (.lone n) := by
  cases h with
  | call => rfl
  | broker he | superseded he | unregistered he => exact absurd he nofun

/-- Only the engine calls the store, which makes up no conflict, and nobody stops it while it runs. -/
def Moment.isSolitary (n : Nat) (m : Moment) : Bool :=
  (match m.act with
    | .land i => (m.before.duty (.lone n) i).epoch?.isSome
    | .stopEngine e => e ≠ .lone n || (m.before.engines e).phase ≠ .running
    | _ => true) && match m.before.memory.options.failure with
    | some (.conflict _) => false
    | _ => true

theorem undisturbed_of_isSolitary {n : Nat} (h : m.isSolitary n = true) :
    m.Undisturbed (.lone n) := by
  rw [Moment.isSolitary, Bool.and_eq_true] at h
  obtain ⟨hact, hfailure⟩ := h
  constructor
  case writers =>
    rintro i ⟨caller, token, hputs, -⟩ hoff
    rw [hputs.act] at hact
    dsimp only at hact
    rw [hoff] at hact
    cases hact
  case stops =>
    intro hrunning hstops
    rw [hstops.eq_of_lone] at hact
    simp [hrunning] at hact
  case failures =>
    intro _ key hconflict
    rw [hconflict] at hfailure
    cases hfailure

theorem undisturbed_of_all {n : Nat} (h : (c.trail acts).all (Moment.isSolitary n)) :
    ∀ m ∈ c.trail acts, m.Undisturbed (.lone n) :=
  fun m hm => undisturbed_of_isSolitary (List.all_eq_true.1 h m hm)

/-- A worker asks the engine to complete a job. -/
def completing (job : JobId) : Act := .submit (.lone 0) (.complete job "w")

/-- The store is down when the engine writes its first batch, and is back for the second one. -/
def outage : List Act :=
  [.startEngine (.lone 0), .land 0, .proceed 0, .proceed 1, completing "a", .proceed 1,
    .setMemory ⟨0, some (.backend "memory" "write" "unavailable")⟩, .proceed 1, .land 1,
    .proceed 1, completing "b", completing "c", .setMemory ⟨0, none⟩, .proceed 1, .proceed 1,
    .land 1, .proceed 1, .proceed 1, .proceed 1]

theorem frugal_outage :
    Store.Memory.empty.IsNumbered ∧ (∀ m ∈ blank.trail outage, m.Undisturbed (.lone 0)) ∧
    (blank.run outage).memory.lastVersion < UInt64.size ∧ Frugal blank outage (.lone 0) ∧
    ((blank.run outage).drained (.lone 0)).map (·.map (·.ticket)) = [[1, 2], [0]] ∧
    ((blank.run outage).passCalls (.lone 0)).length = 2 ∧
    ((blank.run outage).settled (.lone 0)).map (·.verdict.toBool) = [true, true, false] := by
  have hnumbered : Store.Memory.empty.IsNumbered := nofun
  have hcalm : ∀ m ∈ blank.trail outage, m.Undisturbed (.lone 0) :=
    undisturbed_of_all (by decide +kernel)
  have hcounted : (blank.run outage).memory.lastVersion < UInt64.size := by decide +kernel
  exact ⟨hnumbered, hcalm, hcounted, frugal_run _ _ .empty _ _ outage (.lone 0) hnumbered hcalm
    hcounted, by decide +kernel, by decide +kernel, by decide +kernel⟩

/-- A start is stopped while it reads, and the next one makes it.  The engine has written once when
the first one goes on, and has it cache what it read before that. -/
def lateStart : List Act :=
  [.startEngine (.lone 0), .stopEngine (.lone 0), .startEngine (.lone 0), .land 1, .land 0,
    .proceed 0, .land 0, .proceed 1, .proceed 2, completing "a", .proceed 2, .proceed 2, .land 2,
    .proceed 2, .proceed 0, completing "b", .proceed 2, .proceed 2, .land 2, .proceed 2, .proceed 2,
    .land 2, .proceed 2, .land 2, .proceed 2]

/-- A second start succeeds while the first one is still to fail.  The engine takes a submission
then, but not the next one, until it is started once more. -/
def hastyStart : List Act :=
  [.setMemory ⟨0, some (.backend "memory" "create" "unavailable")⟩, .startEngine (.lone 0),
    .setMemory ⟨0, none⟩, .startEngine (.lone 0), completing "a", .land 0, .proceed 0,
    completing "b", .startEngine (.lone 0), .land 2, .proceed 2, completing "c", .proceed 3, .proceed 3, .proceed 3,
    .land 3, .proceed 3]

/-- A sole writer meets with a conflict and has to read, and another one leaves out a submission:
the starts that came before are to blame. -/
theorem disturbed_by_starts :
    let e : EngineId := .lone 0
    let late := blank.run lateStart
    let hasty := blank.run hastyStart
    ((∀ m ∈ blank.trail lateStart, m.Undisturbed e) ∧
      (∀ m ∈ (blank.run (lateStart.take 8)).trail (lateStart.drop 8),
        (m.before.engines e).phase = .running) ∧
      (∃ time epoch, ∃ point : Engine.Commit .put, ∃ call key,
        Event.landed time (.commit e epoch point) call (.error (.conflict key)) ∈ late.log) ∧
      ¬ List.Forall₂ WritesOnce (late.passCalls e) (late.drained e)) ∧
    (∀ m ∈ blank.trail hastyStart, m.Undisturbed e) ∧
    (∀ act ∈ hastyStart, act ≠ .stopEngine e) ∧
    (blank.run (hastyStart.take 3)).StartReturns e (.startEngine e) .already ∧
    (hasty.drained e).map (·.map (·.ticket)) = [[0, 2]] ∧
    hasty.verdict? 1 = some (.error .stopped) := by
  intro e late hasty
  refine ⟨⟨undisturbed_of_all (by decide +kernel), ?_, ?_, ?_⟩,
    undisturbed_of_all (by decide +kernel), ?_, .atOnce (.call rfl) rfl, by decide +kernel, rfl⟩
  · have hphases : ∀ phase ∈ ((blank.run (lateStart.take 8)).trail (lateStart.drop 8)).map
        fun m => (m.before.engines e).phase, phase = .running := by decide +kernel
    exact List.forall_mem_map.1 hphases
  · exact ⟨_, _, _, _, _, List.mem_of_getElem? (i := 5) rfl⟩
  · intro hcalls
    have hlengths : (late.passCalls e).length ≠ (late.drained e).length := by decide +kernel
    exact hlengths hcalls.length_eq
  · simp [hastyStart, completing]

end LeaseQueue.Cluster
