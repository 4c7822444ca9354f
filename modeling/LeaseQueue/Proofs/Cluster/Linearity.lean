import LeaseQueue.Proofs.Cluster.Landings
import LeaseQueue.Proofs.Store.Vouching

/-!
# The store as one sequence of puts

Many callers call at once, on any keys.  Each call takes effect at a moment of its own, and what
they are told is what they would be told if they had called one after the other in that order.
Behind it is one equation, that a store which began empty is what its successful puts made of it:

  `(c.memory.entry? key).map Entry.toObject = c.latest? key`

The versions of objects only grow, so of all puts that want to be the first under a key one comes
through, and of all that want to replace the same version one does.
-/

namespace LeaseQueue.Cluster

open Store.Memory (Entry IsOlder)

/-- What a call stored under the key. -/
def Event.put? (key : String) : Event → Option Store.Object
  | .landed _ (a := .put) _ call (.ok token) =>
    if call.key = key then some ⟨Store.Memory.payload call, token⟩ else none
  | _ => none

/-- The data and the token of the latest successful put under a key. -/
def latest? (c : Cluster) (key : String) : Option Store.Object := c.log.findSome? (Event.put? key)

/-- A create comes through. -/
def Moment.Creates (m : Moment) (key : String) : Prop :=
  ∃ i caller token data, m.Puts i caller token ∧ m.before.callOf caller = .create key data

/-- A write that expects the token comes through. -/
def Moment.Overwrites (m : Moment) (key : String) (expected : Store.Token) : Prop :=
  ∃ i caller token data, m.Puts i caller token ∧ m.before.callOf caller = .write key data expected

/-- The calls of a run take effect one after the other. -/
structure Linear (moments : List Moment) : Prop where
  /-- Whatever a caller goes on with was the answer when its call took effect. -/
  replies : ∀ m ∈ moments, ∀ i (a : Store.Access) (caller : Caller a) answer,
    m.before.procs[i]? = some (.awaiting caller (.landed answer)) →
    ∃ l, [l, m].Sublist moments ∧ l.Answers i caller answer
  tokens : moments.Pairwise fun m m' => ∀ i i' caller caller' token token',
    m.Puts i caller token → m'.Puts i' caller' token' → IsOlder token token' ∧ token ≠ token'
  creates : moments.Pairwise fun m m' => ∀ key, m.Creates key → ¬ m'.Creates key
  writes : moments.Pairwise fun m m' => ∀ key expected,
    m.Overwrites key expected → ¬ m'.Overwrites key expected
  reads : ∀ m ∈ moments, ∀ i (caller : Caller .read) found, m.Answers i caller (.ok found) →
    found = m.before.latest? (m.before.callOf caller).key
  successes : ∀ m ∈ moments, ∀ i caller token, m.Puts i caller token →
    (m.after.memory.entry? (m.before.callOf caller).key).map Entry.toObject =
        some ⟨Store.Memory.payload (m.before.callOf caller), token⟩ ∧
      ∀ key, key ≠ (m.before.callOf caller).key →
        m.after.memory.entry? key = m.before.memory.entry? key
  failures : ∀ m ∈ moments, ∀ i (caller : Caller .put) cause, m.Answers i caller (.error cause) →
    m.after.memory = m.before.memory
  /-- Nothing else changes an object. -/
  changes : ∀ m ∈ moments, ∀ key, m.after.memory.entry? key ≠ m.before.memory.entry? key →
    ∃ i, m.Stores key i

variable {start c c' : Cluster} {acts : List Act} {m m' : Moment} {i i' : ProcId} {key : String}
  {token token' expected : Store.Token}

/-! ## Answers -/

theorem Moment.Answers.memory {a : Store.Access} {caller : Caller a} {answer : Store.Answer a}
    (h : m.Answers i caller answer) : ∃ failure,
      m.before.memory.finish ⟨m.before.callOf caller, failure⟩ = (answer, m.after.memory) := by
  obtain ⟨failure, hq, hanswer⟩ := h.lands
  refine ⟨failure, Prod.ext hanswer ?_⟩
  rw [Moment.after, h.act, step, land, hq]
  rfl

theorem Moment.Answers.memory_of_error {caller : Caller .put} {cause : Store.Error}
    (h : m.Answers i caller (.error cause)) : m.after.memory = m.before.memory := by
  obtain ⟨failure, hfinish⟩ := h.memory
  rcases m.before.memory.finish_put (m.before.callOf caller) failure with
    ⟨_, heq⟩ | ⟨-, heq⟩
  · exact (congrArg Prod.snd (hfinish.symm.trans heq))
  · exact nomatch congrArg Prod.fst (hfinish.symm.trans heq)

theorem Moment.Answers.found {caller : Caller .read} {found : Option Store.Object}
    (h : m.Answers i caller (.ok found)) :
    found = (m.before.memory.entry? (m.before.callOf caller).key).map Entry.toObject := by
  obtain ⟨failure, hfinish⟩ := h.memory
  cases hcall : m.before.callOf caller with
  | read key =>
    rw [hcall] at hfinish
    cases failure with
    | some cause => exact nomatch congrArg Prod.fst hfinish
    | none => exact (Except.ok.inj (congrArg Prod.fst hfinish)).symm

/-! ## What the log tells of the store -/

theorem Event.put?_of_not_landing {event : Event} (h : event.isLanding = false) :
    Event.put? key event = none := by
  cases event with
  | landed => cases h
  | _ => rfl

theorem latest?_eq_landings :
    c.latest? key = c.background.landings.findSome? (Event.put? key) := by
  rw [latest?, background, ← List.head?_filterMap, ← List.head?_filterMap, List.filterMap_filter]
  congr 2
  funext event
  split
  · rfl
  next hevent => exact Event.put?_of_not_landing (Bool.eq_false_iff.2 hevent)

/-- Every object is what the latest put under its key has stored. -/
def Recorded (c : Cluster) : Prop :=
  ∀ key, (c.memory.entry? key).map Entry.toObject = c.latest? key

theorem recorded_landed (h : c.Recorded) {a : Store.Access} (caller : Caller a)
    (failure : Option Store.Error) :
    (c.landed i caller (c.memory.finish ⟨c.callOf caller, failure⟩).1
      (c.memory.finish ⟨c.callOf caller, failure⟩).2).Recorded := by
  intro key
  generalize hcall : c.callOf caller = call
  have hlatest (answer : Store.Answer a) (memory : Store.Memory) :
      (c.landed i caller answer memory).latest? key =
        (Event.put? key (.landed c.clock caller call answer)).or (c.latest? key) := by
    rw [← hcall, latest?, landed, record, List.findSome?_cons]
    cases Event.put? key (.landed c.clock caller (c.callOf caller) answer) <;> rfl
  rw [hlatest]
  cases a with
  | read =>
    cases call with
    | read k =>
      show (Store.Memory.entry? (c.memory.finish ⟨.read k, failure⟩).2 key).map _ = _
      rw [(c.memory.finish_read k failure).1]
      exact h key
  | put =>
    rcases c.memory.finish_put call failure with ⟨cause, heq⟩ | ⟨-, heq⟩
    · rw [heq]
      exact h key
    · rw [heq]
      show (Store.Memory.entry? (c.memory.store call.key _).2 key).map _ = _
      rw [Store.Memory.entry?_store]
      by_cases hkey : key = call.key
      · rw [if_pos hkey, Store.Memory.store, Event.put?, if_pos hkey.symm]
        rfl
      · rw [if_neg hkey, Store.Memory.store, Event.put?, if_neg (Ne.symm hkey)]
        exact h key

theorem recorded_step (h : c.Recorded) (act : Act) : (c.step act).Recorded := by
  rcases act.land_or with ⟨i, rfl⟩ | hne
  · rcases land_cases c i with heq | ⟨a, caller, failure, -, heq⟩
    · rw [step, heq]
      exact h
    · rw [step, heq]
      exact recorded_landed h caller failure
  · intro key
    have hbackground := background_step c act hne
    have hentries : (c.step act).memory.entries = c.memory.entries :=
      congrArg Background.entries hbackground
    rw [latest?_eq_landings, hbackground, ← latest?_eq_landings, ← h key, Store.Memory.entry?,
      Store.Memory.entry?, hentries]

theorem recorded_run (h : start.Recorded) (acts : List Act) : (start.run acts).Recorded :=
  run_induction h (fun _ act hc => recorded_step hc act) acts

/-! ## Puts that follow one another -/

theorem Moment.Puts.isOlder {caller caller' : Caller .put}
    (horder : [m, m'].Sublist (start.trail acts)) (h : m.Puts i caller token)
    (h' : m'.Puts i' caller' token') : IsOlder token token' := by
  obtain ⟨htoken, hlast, -⟩ := h.lookup
  have hages := (ages_of_sublist horder).lastVersion
  exact ⟨_, _, htoken, h'.lookup.1, by omega⟩

/-- What was put is replaced by newer ones only, and never vanishes. -/
theorem Moment.Puts.remains {caller : Caller .put}
    (horder : [m, m'].Sublist (start.trail acts)) (h : m.Puts i caller token) :
    ∃ e, m'.before.memory.entry? (m.before.callOf caller).key = some e ∧
      m.before.memory.lastVersion < e.version := by
  obtain ⟨-, hlast, hentry⟩ := h.lookup
  have hages := ages_of_sublist horder
  have hstored := (hentry (m.before.callOf caller).key).trans (if_pos rfl)
  obtain ⟨e, he⟩ := hages.remains hstored
  exact ⟨e, he, hages.version_lt hstored (Nat.lt_succ_self _) (by omega) he⟩

theorem Moment.Creates.not_again (horder : [m, m'].Sublist (start.trail acts))
    (h : m.Creates key) : ¬ m'.Creates key := by
  rintro ⟨i', caller', token', data', hputs', hcall'⟩
  obtain ⟨i, caller, token, data, hputs, hcall⟩ := h
  obtain ⟨e, he, -⟩ := hputs.remains horder
  have hadmits := hputs'.stored.1
  rw [hcall] at he
  rw [hcall'] at hadmits
  exact nomatch he.symm.trans hadmits

theorem Moment.Overwrites.not_again (hnumbered : m.before.memory.IsNumbered)
    (horder : [m, m'].Sublist (start.trail acts)) (h : m.Overwrites key expected) :
    ¬ m'.Overwrites key expected := by
  rintro ⟨i', caller', token', data', hputs', hcall'⟩
  obtain ⟨i, caller, token, data, hputs, hcall⟩ := h
  have hadmits := hputs.stored.1
  have hadmits' := hputs'.stored.1
  obtain ⟨e', he', hnew⟩ := hputs.remains horder
  rw [hcall] at hadmits he'
  rw [hcall'] at hadmits'
  obtain ⟨old, hold, hexpected⟩ := hadmits
  obtain ⟨new, hnow, hexpected'⟩ := hadmits'
  obtain rfl : e' = new := Option.some.inj (he'.symm.trans hnow)
  have hsame : old.version = e'.version := Option.some.inj (hexpected.symm.trans hexpected')
  have hcounted := hnumbered key old hold
  omega

/-! ## All calls -/

theorem Moment.Puts.replaced {caller : Caller .put} (h : m.Puts i caller token) :
    (m.after.memory.entry? (m.before.callOf caller).key).map Entry.toObject =
        some ⟨Store.Memory.payload (m.before.callOf caller), token⟩ ∧
      ∀ key, key ≠ (m.before.callOf caller).key →
        m.after.memory.entry? key = m.before.memory.entry? key := by
  obtain ⟨rfl, -, hentry⟩ := h.lookup
  refine ⟨?_, fun key hkey => (hentry key).trans (if_neg hkey)⟩
  rw [hentry, if_pos rfl]
  rfl

/-- **The store is linearizable.** -/
theorem linear_run (engines : Nat → Engine.Options) (brokers : BrokerId → Broker.Options)
    (options : Store.Memory.Options) (ids : IdSupply) (clock : Millis) (acts : List Act) :
    Linear ((init engines brokers { Store.Memory.empty with options } ids clock).trail acts) := by
  generalize hstart : init engines brokers { Store.Memory.empty with options } ids clock = start
  have hprocs : start.procs = [] := hstart ▸ rfl
  have hnumbered : start.memory.IsNumbered := hstart ▸ fun key e he => nomatch he
  have hrecorded : start.Recorded := hstart ▸ fun key => rfl
  exact {
    replies := by
      intro m hm i a caller answer hq
      obtain ⟨before, hbefore, hextend⟩ := exists_before hm
      rw [hbefore] at hq
      obtain ⟨l, hl, hanswers⟩ := exists_answers hprocs hq
      exact ⟨l, hextend [l] (List.singleton_sublist.2 hl), hanswers⟩
    tokens := pairwise_trail fun m m' horder i i' caller caller' token token' h h' =>
      have holder := h.isOlder horder h'
      ⟨holder, holder.ne⟩
    creates := pairwise_trail fun m m' horder key h => h.not_again horder
    writes := pairwise_trail fun m m' horder key expected h =>
      h.not_again (isNumbered_of_mem hnumbered (horder.subset List.mem_cons_self)) horder
    reads := by
      intro m hm i caller found hanswers
      rw [hanswers.found]
      exact forall_trail (recorded_run hrecorded) m hm (m.before.callOf caller).key
    successes := fun m _ i caller token h => h.replaced
    failures := fun m _ i caller cause h => h.memory_of_error
    changes := fun m _ key h => Moment.stores_of_ne h }

end LeaseQueue.Cluster
