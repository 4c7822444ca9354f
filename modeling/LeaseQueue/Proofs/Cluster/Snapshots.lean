import LeaseQueue.Proofs.Cluster.Bases
import LeaseQueue.Proofs.Cluster.Landings
import LeaseQueue.Proofs.Queue.Codec

/-!
# What an engine shows of the store

Whoever asks an engine for its document gets the one that it has cached, and no call to the store.
Where the engine takes note of each answer before anything else happens, that document was in the
store at some time, no later one is older, and once a submission has its result the engine shows
nothing older than the write that has it (`Coherent`).

Behind it is that an answer is true of the store when it comes, and that versions only grow:

  `c.Reached e v → (c.step act).Reached e v`
-/

namespace LeaseQueue.Cluster

open Engine (Cached Ledger Learns Write)
open Store.Memory (IsNotNewer)

/-- Such callers go on as soon as they are answered. -/
def Heeds (moments : List Moment) (P : ∀ {a : Store.Access}, Caller a → Prop) : Prop :=
  ∀ m ∈ moments, ∀ (i : ProcId) (a : Store.Access) (caller : Caller a) (answer : Store.Answer a),
    P caller → m.before.procs[i]? = some (.awaiting caller (.landed answer)) → m.act = .proceed i

/-- Everybody who is answered goes on at once. -/
def Moment.isPrompt (m : Moment) : Bool :=
  m.before.procs.zipIdx.all fun
    | (.awaiting _ (.landed _), i) => match m.act with
      | .proceed j => i = j
      | _ => false
    | _ => true

/-- The document of the engine is the one in the store. -/
def Mirrors (c : Cluster) (e : EngineId) (cached : Cached) : Prop :=
  ∃ entry, c.memory.entry? (c.engines e).options.stateKey = some entry ∧
    cached.token = toString entry.version ∧ Holds entry.data cached.document ∧
    (cached.document.HasPayloads → ∀ d, Document.decode entry.data = .ok d → d = cached.document)

/-- A write of the engine takes effect, and this is its token. -/
def Moment.Stamps (m : Moment) (e : EngineId) (w : Write) (token : Store.Token) : Prop :=
  ∃ i epoch conflicts expected,
    m.Puts i (.commit e epoch (.writing ⟨w.batch, conflicts⟩ w.document w.results expected)) token

/-- What an engine shows after a run. -/
structure Coherent (start : Cluster) (acts : List Act) (e : EngineId) : Prop where
  snapshot : ∀ cached, ((start.run acts).engines e).cache = some cached →
    ∃ earlier, earlier <+: acts ∧ (start.run earlier).Mirrors e cached
  monotone : ∀ earlier, earlier <+: acts → ∀ old new,
    ((start.run earlier).engines e).cache = some old →
    ((start.run acts).engines e).cache = some new → IsNotNewer old.token new.token
  /-- Whoever has a result is shown nothing older than the write that has the submission. -/
  own : ∀ ticket result, .settled e ⟨ticket, .ok result⟩ ∈ (start.run acts).log →
    ∃ m ∈ start.trail acts, ∃ w token, m.Stamps e w token ∧ w.folds ticket ∧
      ∀ cached, ((start.run acts).engines e).cache = some cached → IsNotNewer token cached.token

/-- Neither the object nor what the engine has of it is older than this version. -/
structure Reached (c : Cluster) (e : EngineId) (v : Nat) : Prop where
  stored : ∃ entry, c.memory.entry? (c.engines e).options.stateKey = some entry ∧ v ≤ entry.version
  cached : ∀ cached, (c.engines e).cache = some cached →
    ∃ w : Nat, cached.token = toString w ∧ v ≤ w

/-- What such callers have been told is true of the store. -/
def Candid (c : Cluster) (P : ∀ {a : Store.Access}, Caller a → Prop) : Prop :=
  ∀ (i : ProcId) (a : Store.Access) (caller : Caller a) (answer : Store.Answer a),
    P caller → c.procs[i]? = some (.awaiting caller (.landed answer)) →
    c.memory.Shows (c.callOf caller) answer

variable {start c : Cluster} {acts : List Act} {act : Act} {m : Moment} {e : EngineId}
  {i : ProcId} {cached : Cached} {P : ∀ {a : Store.Access}, Caller a → Prop} {v : Nat}

/-- An answer that is true makes the engine mirror the store. -/
theorem mirrors_of_learns {a : Store.Access} {call : Store.Call a} {answer : Store.Answer a}
    (hshows : c.memory.Shows call answer) (hkey : call.key = (c.engines e).options.stateKey)
    (hlearns : Learns call answer cached) : c.Mirrors e cached := by
  rw [Mirrors, ← hkey]
  cases hlearns with
  | read hdecode =>
    obtain ⟨entry, hentry, rfl⟩ := hshows _ rfl
    exact ⟨entry, hentry, rfl, .inr hdecode, fun _ d hd => Except.ok.inj (hd.symm.trans hdecode)⟩
  | put hpayload =>
    obtain ⟨entry, hentry, hdata, rfl⟩ := hshows _ rfl
    rw [hpayload] at hdata
    refine ⟨entry, hentry, rfl, .inl hdata, fun hpayloads d hd => ?_⟩
    rw [hdata] at hd
    exact Document.eq_of_decode_encode hpayloads hd

/-! ## Answers that are taken note of at once -/

theorem Heeds.of_append {moments more : List Moment} (h : Heeds (moments ++ more) P) :
    Heeds moments P := fun m hm => h m (List.mem_append_left _ hm)

theorem heeds_of_isPrompt {moments : List Moment} (h : moments.all Moment.isPrompt) :
    Heeds moments P := by
  intro m hm i a caller answer _ hq
  have hmem : (Proc.awaiting caller (.landed answer), i) ∈ m.before.procs.zipIdx :=
    List.mem_zipIdx_iff_getElem?.2 hq
  have hprompt := List.all_eq_true.1 (List.all_eq_true.1 h m hm) _ hmem
  dsimp only at hprompt
  split at hprompt
  next j hact => rw [hact, of_decide_eq_true hprompt]
  · cases hprompt

theorem shows_land {a : Store.Access} {caller : Caller a} {failure : Option Store.Error}
    (hsent : c.procs[i]? = some (.awaiting caller (.sent failure))) :
    (c.step (.land i)).memory.Shows ((c.step (.land i)).callOf caller)
      (c.memory.finish ⟨c.callOf caller, failure⟩).1 := by
  have hmemory : (c.step (.land i)).memory =
      (c.memory.finish ⟨c.callOf caller, failure⟩).2 := by
    rw [step, land, hsent]
    rfl
  rw [callOf_eq_of_options (options_step _ _), hmemory]
  exact Store.Memory.shows_finish _ _ failure

/-- As nobody waits with an answer, what has been answered was answered by the latest step. -/
theorem candid_run (hstart : start.procs = []) (hheeds : Heeds (start.trail acts) P) :
    (start.run acts).Candid P := by
  intro i a caller answer hP hq
  rcases acts.eq_nil_or_concat' with rfl | ⟨earlier, act, rfl⟩
  · cases (getElem?_of_procs_eq_nil hstart).symm.trans hq
  · rw [run_concat] at hq ⊢
    rcases landed_cases hq with hold | ⟨failure, rfl, hsent, rfl⟩
    · have hmem : ⟨start.run earlier, act⟩ ∈ start.trail (earlier ++ [act]) :=
        mem_trail_concat.2 (.inr rfl)
      obtain rfl : act = .proceed i := hheeds _ hmem i a caller answer hP hold
      obtain ⟨hi, -⟩ := List.getElem?_eq_some_iff.1 hold
      rw [step, procs_proceed hold,
        List.getElem?_append_left (by rwa [List.length_set]), List.getElem?_set_self hi] at hq
      exact absurd (Option.some.inj hq) onward_ne_landed
    · exact shows_land hsent

theorem candid_of_mem (hstart : start.procs = []) (hheeds : Heeds (start.trail acts) P)
    (hm : m ∈ start.trail acts) : m.before.Candid P := by
  obtain ⟨earlier, later, rfl, hbefore⟩ := mem_trail.1 hm
  rw [hbefore]
  rw [trail_append] at hheeds
  exact candid_run hstart hheeds.of_append

theorem Moment.Obtains.mirrors (h : m.Obtains e cached) (houtfitted : m.before.Outfitted)
    (hcandid : m.before.Candid (Caller.Serves e)) : m.before.Mirrors e cached := by
  obtain ⟨i, a, caller, answer, -, hserves, hq, hlearns⟩ := h
  exact mirrors_of_learns (hcandid i a caller answer hserves hq)
    (key_of_serves houtfitted hserves) hlearns

/-! ## Versions that are reached -/

/-- Nothing falls back behind a version that was reached. -/
theorem Reached.step (h : c.Reached e v) (hbased : c.Based)
    (hcandid : c.Candid (Caller.Serves e)) (act : Act) : (c.step act).Reached e v := by
  obtain ⟨entry, hentry, hle⟩ := h.stored
  refine ⟨?_, fun cached hcached => ?_⟩
  · rw [engine_options_eq (options_step c act)]
    obtain ⟨entry', hentry'⟩ := (ages_step act).remains hentry
    have hversion := (ages_step act).version_le hbased.numbered hentry hentry'
    exact ⟨entry', hentry', Nat.le_trans hle hversion⟩
  · rcases obtains_step hbased.outfitted hcached with hold | hobtains
    · exact h.cached cached hold
    · obtain ⟨entry', hentry', htoken, -⟩ := hobtains.mirrors hbased.outfitted hcandid
      obtain rfl := Option.some.inj (hentry.symm.trans hentry')
      exact ⟨entry.version, htoken, hle⟩

theorem Reached.run (h : c.Reached e v) (hbased : c.Based)
    (hcandid : ∀ m ∈ c.trail acts, m.before.Candid (Caller.Serves e)) :
    (c.run acts).Reached e v := by
  induction acts generalizing c with
  | nil => exact h
  | cons act acts ih =>
    have hfirst := h.step hbased (hcandid _ List.mem_cons_self) act
    exact ih hfirst (hbased.step act) fun m hm => hcandid m (List.mem_cons_of_mem _ hm)

/-! ## Runs -/

section Runs

variable (hstart : start.procs = []) (hbased : start.Based)
  (hheeds : Heeds (start.trail acts) (Caller.Serves e))

include hstart hbased hheeds

/-- Whatever an engine has was in the store. -/
theorem exists_mirrors (hempty : (start.engines e).cache = none)
    (h : ((start.run acts).engines e).cache = some cached) :
    ∃ earlier, earlier <+: acts ∧ (start.run earlier).Mirrors e cached := by
  induction acts using List.reverseRecOn with
  | nil => cases hempty.symm.trans h
  | append_singleton acts act ih =>
    have hmem : ⟨start.run acts, act⟩ ∈ start.trail (acts ++ [act]) :=
      mem_trail_concat.2 (.inr rfl)
    have houtfitted := (hbased.run acts).outfitted
    rw [run_concat] at h
    rcases obtains_step houtfitted h with hold | hobtains
    · rw [trail_concat] at hheeds
      obtain ⟨earlier, hprefix, hmirrors⟩ := ih hheeds.of_append hold
      exact ⟨earlier, hprefix.trans (List.prefix_append _ _), hmirrors⟩
    · exact ⟨acts, List.prefix_append _ _,
        hobtains.mirrors houtfitted (candid_of_mem hstart hheeds hmem)⟩

/-- What the engine has, and what is in the store, is as new as what it had. -/
theorem reached_of_cached (hempty : (start.engines e).cache = none)
    (h : ((start.run acts).engines e).cache = some cached) :
    ∃ v : Nat, cached.token = toString v ∧ (start.run acts).Reached e v := by
  obtain ⟨earlier, ⟨later, rfl⟩, entry, hentry, htoken, -⟩ :=
    exists_mirrors hstart hbased hheeds hempty h
  refine ⟨entry.version, htoken, ?_, fun cached' hcached' => ?_⟩
  · rw [run_append]
    have hages := ages_run (c := start.run earlier) later
    obtain ⟨entry', hentry'⟩ := hages.remains hentry
    rw [engine_options_eq (options_run (start.run earlier) later)]
    exact ⟨entry', hentry', hages.version_le (hbased.run earlier).numbered hentry hentry'⟩
  · obtain rfl := Option.some.inj (h.symm.trans hcached')
    exact ⟨entry.version, htoken, Nat.le_refl _⟩

theorem Reached.run_of_heeds {earlier later : List Act} (hacts : acts = earlier ++ later)
    (h : (start.run earlier).Reached e v) : (start.run acts).Reached e v := by
  have hcandid (m : Moment) (hm : m ∈ start.trail acts) : m.before.Candid (Caller.Serves e) :=
    candid_of_mem hstart hheeds hm
  rw [hacts, trail_append] at hcandid
  rw [hacts, run_append]
  exact h.run (hbased.run earlier) fun m hm => hcandid m (List.mem_append_right _ hm)

end Runs

/-- Whoever has the token of its write takes note of it by going on. -/
theorem cache_of_landed {epoch : Nat} {pass : Engine.Pass} {document : Document}
    {results : List MutationResult} {expected token : Store.Token}
    (hq : c.procs[i]? = some (.awaiting
      (.commit e epoch (.writing pass document results expected)) (.landed (.ok token)))) :
    ((c.step (.proceed i)).engines e).cache = some ⟨document, token⟩ := by
  rw [step, proceed, hq]
  exact congrArg Engine.cache (engines_followMove_self _ _)

theorem Moment.Stamps.reached {w : Write} {token : Store.Token} (h : m.Stamps e w token)
    (hbased : m.after.Based) {act : Act}
    (hheeds : ∀ (i : ProcId) (a : Store.Access) (caller : Caller a) (answer : Store.Answer a),
      caller.Serves e → m.after.procs[i]? = some (.awaiting caller (.landed answer)) →
      act = .proceed i) :
    ∃ v : Nat, token = toString v ∧ (m.after.step act).Reached e v := by
  obtain ⟨i, epoch, conflicts, expected, hputs⟩ := h
  obtain rfl := hheeds i _ _ _ (.commits epoch _) hputs.landed
  obtain ⟨rfl, -, hentry⟩ := hputs.lookup
  have hstored := (hentry _).trans (if_pos rfl)
  have hages := ages_step (c := m.after) (.proceed i)
  obtain ⟨entry, hnow⟩ := hages.remains hstored
  refine ⟨_, rfl, ⟨entry, ?_, ?_⟩, fun cached hcached => ?_⟩
  · rw [engine_options_eq ((options_step m.after _).trans (options_step m.before m.act))]
    exact hnow
  · exact hages.version_le hbased.numbered hstored hnow
  · obtain rfl := Option.some.inj ((cache_of_landed hputs.landed).symm.trans hcached)
    exact ⟨_, rfl, Nat.le_refl _⟩

/-- A batch that is still on its way is not settled by its write. -/
theorem Moment.Stamps.not_settled {w : Write} {token : Store.Token} (h : m.Stamps e w token)
    {timeout : Millis} (hsound : Ledger.Sound timeout (m.before.ledger e)) {ticket : Engine.Ticket}
    (hfolds : w.folds ticket) {verdict : Engine.Verdict} :
    .settled e ⟨ticket, verdict⟩ ∉ m.after.log := by
  intro hmem
  obtain ⟨i, epoch, conflicts, expected, hputs⟩ := h
  obtain ⟨failure, hq, -⟩ := hputs.lands
  have hbefore : .settled e ⟨ticket, verdict⟩ ∈ m.before.log := by
    rw [Moment.after, hputs.act, step, land, hq] at hmem
    rcases List.mem_cons.1 hmem with heq | hold
    · cases heq
    · exact hold
  have hsettled : ⟨ticket, verdict⟩ ∈ (m.before.ledger e).settled :=
    List.mem_filterMap.2 ⟨_, hbefore, if_pos rfl⟩
  obtain ⟨p, hp, hticket⟩ := Write.folds_iff.1 hfolds
  have herrands := errands_perm (e := e) hq
  rw [Proc.errands, if_pos rfl] at herrands
  exact hsound.not_settled herrands hp hsettled hticket

/-- **What an engine shows was in the store, never grows older, and has what is acknowledged.** -/
theorem coherent_run (engines : Nat → Engine.Options) (brokers : BrokerId → Broker.Options)
    (memory : Store.Memory) (ids : IdSupply) (clock : Millis) (acts : List Act) (e : EngineId)
    (hnumbered : memory.IsNumbered) :
    let start := init engines brokers memory ids clock
    Heeds (start.trail acts) (Caller.Serves e) → Coherent start acts e := by
  intro start hheeds
  have hstart : start.procs = [] := rfl
  have hbased : start.Based := based_init engines brokers hnumbered ids clock
  have hempty : (start.engines e).cache = none := by cases e <;> rfl
  have hsound (acts : List Act) :=
    sound_run engines brokers memory ids clock acts e
  constructor
  case snapshot => exact fun cached => exists_mirrors hstart hbased hheeds hempty
  case monotone =>
    rintro earlier ⟨later, hacts⟩ old new hold hnew
    have hearlier : Heeds (start.trail earlier) (Caller.Serves e) := by
      rw [← hacts, trail_append] at hheeds
      exact hheeds.of_append
    obtain ⟨v, htoken, hreached⟩ := reached_of_cached hstart hbased hearlier hempty hold
    have hnow := Reached.run_of_heeds hstart hbased hheeds hacts.symm hreached
    obtain ⟨w, hcached, hle⟩ := hnow.cached new hnew
    exact ⟨v, w, htoken, hcached, hle⟩
  case own =>
    intro ticket result hsettled
    have hmem : ⟨ticket, .ok result⟩ ∈ (start.run acts).settled e :=
      List.mem_filterMap.2 ⟨_, hsettled, if_pos rfl⟩
    obtain ⟨w, mutation, hfilter, -⟩ := (hsound acts).result hmem rfl
    obtain ⟨hw, hfolds⟩ := List.mem_filter.1 (hfilter ▸ List.mem_singleton_self w :
      w ∈ ((start.run acts).ledger e).written.filter (·.folds ticket))
    rcases exists_writes hw with hfirst | ⟨m, hm, i, epoch, conflicts, expected, token, hputs⟩
    · cases hfirst
    have hstamps : m.Stamps e w token := ⟨i, epoch, conflicts, expected, hputs⟩
    refine ⟨m, hm, w, token, hstamps, hfolds, fun cached hcached => ?_⟩
    obtain ⟨earlier, later, hacts, hbefore⟩ := mem_trail.1 hm
    have hafter : start.run (earlier ++ [m.act]) = m.after := by
      rw [run_concat, ← hbefore]
      rfl
    cases later with
    | nil =>
      rw [hacts, hafter] at hsettled
      exact absurd hsettled (hstamps.not_settled (hbefore ▸ hsound earlier) hfolds)
    | cons act later =>
      have hnext : ⟨m.after, act⟩ ∈ start.trail acts :=
        mem_trail.2 ⟨earlier ++ [m.act], later, by rw [hacts, List.append_assoc]; rfl, hafter.symm⟩
      obtain ⟨v, htoken, hreached⟩ :=
        hstamps.reached (hafter ▸ hbased.run _) (hheeds _ hnext)
      have hsplit : acts = (earlier ++ [m.act] ++ [act]) ++ later := by
        rw [hacts, List.append_assoc, List.append_assoc]
        rfl
      rw [← hafter, ← run_concat] at hreached
      obtain ⟨v', hcached', hle⟩ :=
        (Reached.run_of_heeds hstart hbased hheeds hsplit hreached).cached cached hcached
      exact ⟨v, v', htoken, hcached', hle⟩

/-- An engine starts and writes, but somebody else comes first.  It reads what was stored, writes
again and succeeds. -/
def intrusion : List Act :=
  [.startEngine (.lone 0), .land 0, .proceed 0, .proceed 1, .submit (.lone 0) (.complete "a" "w"),
    .proceed 1, .proceed 1, .call (.write "queue.json" Document.empty.encode "1"), .land 2,
    .proceed 2, .land 1, .proceed 1, .proceed 1, .land 1, .proceed 1, .land 1, .proceed 1]

theorem coherent_intrusion :
    Store.Memory.empty.IsNumbered ∧ Heeds (blank.trail intrusion) (Caller.Serves (.lone 0)) ∧
    Coherent blank intrusion (.lone 0) ∧
    ((blank.run (intrusion.take 8)).engines (.lone 0)).cache.map (·.token) = some "1" ∧
    ((blank.run (intrusion.take 12)).engines (.lone 0)).cache.map (·.token) = none ∧
    ((blank.run (intrusion.take 15)).engines (.lone 0)).cache.map (·.token) = some "2" ∧
    ((blank.run intrusion).engines (.lone 0)).cache.map (·.token) = some "3" ∧
    ((blank.run intrusion).settled (.lone 0)).map (·.verdict.toBool) = [true] := by
  have hnumbered : Store.Memory.empty.IsNumbered := nofun
  have hheeds : Heeds (blank.trail intrusion) (Caller.Serves (.lone 0)) :=
    heeds_of_isPrompt (by decide +kernel)
  exact ⟨hnumbered, hheeds, coherent_run _ _ .empty _ _ intrusion (.lone 0) hnumbered hheeds,
    by decide +kernel, by decide +kernel, by decide +kernel, by decide +kernel, by decide +kernel⟩

end LeaseQueue.Cluster
