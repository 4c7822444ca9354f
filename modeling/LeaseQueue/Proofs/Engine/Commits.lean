import LeaseQueue.Proofs.Engine.Caches

/-!
# Passes against a store that answers as it likes

A pass that is alone with its engine is over after a bounded number of answers, whatever they are:

  `3 * maxRetries + 2 ≤ xs.length → course.next = course.engine.enterLoop epoch`

`Tries` says what it can have done by then, one rule for each answer.  The steps of an engine follow
these rules, and the rules alone give the order of calls and waits, what the batch gets and what the
cache holds in the end.
-/

namespace LeaseQueue.Engine

/-! ## Courses -/

/-- What a pass finds when it goes on: an answer of either kind, the time, and what has become of
the engine meanwhile.  Others submit and stop; no other pass and no start touches the cache. -/
structure Encounter where
  found : Store.Answer .read
  stored : Store.Answer .put
  now : Millis
  phase : Phase
  epoch : Nat
  buffer : List Pending

def Encounter.answer (x : Encounter) : (a : Store.Access) → Store.Answer a
  | .read => x.found
  | .put => x.stored

def Encounter.meanwhile (x : Encounter) (e : Engine) : Engine :=
  { e with phase := x.phase, epoch := x.epoch, buffer := x.buffer }

/-- What others see of a pass. -/
inductive Event where
  | call {a : Store.Access} (call : Store.Call a) (answer : Store.Answer a)
  | wait (millis : Nat)

/-- A pass from a move on, as far as the answers go. -/
structure Course where
  events : List Event
  engine : Engine
  next : LoopStep
  settled : List Settlement

def Course.after (c : Course) (x : Event) (settled : List Settlement) : Course :=
  { c with events := x :: c.events, settled := settled ++ c.settled }

/-- Goes on from encounter to encounter until the pass is over. -/
def LoopMove.course (epoch : Nat) (move : LoopMove) : List Encounter → Course
  | [] => ⟨[], move.engine, move.next, move.settled⟩
  | x :: xs =>
    let e := x.meanwhile move.engine
    match move.next with
    | .commit (a := a) point =>
      ((e.resumeCommit epoch x.now move.ids point (x.answer a)).course epoch xs).after
        (.call (point.call move.engine.options) (x.answer a)) move.settled
    | .backOff pass wait =>
      ((e.attempt pass x.now move.ids).course epoch xs).after (.wait wait) move.settled
    | .rest | .giveWay | .leave => ⟨[], move.engine, move.next, move.settled⟩

/-! ## What a pass may do -/

/-- What a batch gets. -/
abbrev Outcome := Except Error (List MutationResult)

def Outcome.settle (outcome : Outcome) (batch : List Pending) : List Settlement :=
  match outcome with
  | .ok results => settleResults batch results
  | .error cause => settleAll (.error cause) batch

/-- Someone else's put came first. -/
def isConflict : Store.Answer .put → Bool
  | .error (.conflict _) => true
  | _ => false

/-- A pass with so many conflicts behind it and this base at hand does this, comes to this outcome
and leaves this in the cache.  A base is read if there is none, and lost with every conflict. -/
inductive Tries (o : Options) (batch : List Pending) :
    UInt32 → Option Cached → List Event → Outcome → Option Cached → Prop where
  | unread {k : UInt32} {answer : Store.Answer .read} {cause : Error}
    (h : received o.stateKey answer = .error cause) :
    Tries o batch k none [.call (.read o.stateKey) answer] (.error cause) none
  | read {k : UInt32} {answer : Store.Answer .read} {base : Cached} {events : List Event}
    {outcome : Outcome} {left : Option Cached} (h : received o.stateKey answer = .ok base)
    (rest : Tries o batch k (some base) events outcome left) :
    Tries o batch k none (.call (.read o.stateKey) answer :: events) outcome left
  | landed {k : UInt32} {base : Cached} {document : Document} {results : List MutationResult}
    (token : Store.Token)
    (h : Write.FoldsOver o.heartbeatTimeout base.document ⟨batch, document, results⟩) :
    Tries o batch k (some base)
      [.call (.write o.stateKey document.encode base.token) (.ok token)]
      (.ok results) (some ⟨document, token⟩)
  | refused {k : UInt32} {base : Cached} {document : Document} {results : List MutationResult}
    {cause : Store.Error}
    (h : Write.FoldsOver o.heartbeatTimeout base.document ⟨batch, document, results⟩)
    (hcause : isConflict (.error cause) = false) :
    Tries o batch k (some base)
      [.call (.write o.stateKey document.encode base.token) (.error cause)]
      (.error (.storage cause)) (some base)
  | exhausted {k : UInt32} {base : Cached} {document : Document} {results : List MutationResult}
    (key : String)
    (h : Write.FoldsOver o.heartbeatTimeout base.document ⟨batch, document, results⟩)
    (hlast : k = o.maxRetries) :
    Tries o batch k (some base)
      [.call (.write o.stateKey document.encode base.token) (.error (.conflict key))]
      (.error (.retriesExhausted (k + 1))) none
  | conflict {k : UInt32} {base : Cached} {document : Document} {results : List MutationResult}
    {events : List Event} {outcome : Outcome} {left : Option Cached} (key : String)
    (h : Write.FoldsOver o.heartbeatTimeout base.document ⟨batch, document, results⟩)
    (hmore : k < o.maxRetries) (rest : Tries o batch (k + 1) none events outcome left) :
    Tries o batch k (some base)
      (.call (.write o.stateKey document.encode base.token) (.error (.conflict key)) ::
        .wait (o.conflictBackoff * (k + 1).toNat) :: events) outcome left

/-! ## Engines follow the rules -/

theorem course_of_enterLoop {move : LoopMove} {e : Engine} {epoch : Nat}
    (h : move.next = e.enterLoop epoch) (xs : List Encounter) :
    move.course epoch xs = ⟨[], move.engine, e.enterLoop epoch, move.settled⟩ := by
  obtain ⟨engine, next, settled, ids⟩ := move
  obtain rfl : next = e.enterLoop epoch := h
  cases xs with
  | nil => rfl
  | cons x xs =>
    unfold LoopMove.course enterLoop
    split <;> rfl

/-- The pass is over by the end of this course, and has followed the rules. -/
def Course.Concludes (course : Course) (o : Options) (batch : List Pending) (epoch : Nat)
    (k : UInt32) (cached : Option Cached) : Prop :=
  course.next = course.engine.enterLoop epoch ∧
  ∃ outcome : Outcome, course.settled = outcome.settle batch ∧
    Tries o batch k cached course.events outcome course.engine.cache

section

variable {o : Options} {batch : List Pending} {epoch : Nat} {k : UInt32} {e : Engine}
  {base : Cached} {xs : List Encounter}

/-- An engine that starts an attempt after so many conflicts concludes it. -/
def Retries (o : Options) (batch : List Pending) (epoch : Nat) (k : UInt32) : Prop :=
  ∀ (e : Engine) (now : Millis) (ids : IdSupply) (xs : List Encounter), e.options = o →
    3 * (o.maxRetries.toNat - k.toNat) + 2 ≤ xs.length →
    ((e.attempt ⟨batch, k⟩ now ids).course epoch xs).Concludes o batch epoch k e.cache

/-- After the answer to a write the pass is over, or it has to try again. -/
theorem wrote_concludes {document : Document} {results : List MutationResult}
    (h : Write.FoldsOver o.heartbeatTimeout base.document ⟨batch, document, results⟩)
    (ho : e.options = o) (hcache : e.cache = some base)
    (hxs : 3 * (o.maxRetries.toNat - k.toNat) ≤ xs.length) (hk : k ≤ o.maxRetries)
    (retry : k < o.maxRetries → Retries o batch epoch (k + 1)) (now : Millis)
    (ids : IdSupply) (answer : Store.Answer .put) :
    (((e.resumeCommit epoch now ids (.writing ⟨batch, k⟩ document results base.token)
      answer).course epoch xs).after
        (.call (.write o.stateKey document.encode base.token) answer) []).Concludes
          o batch epoch k (some base) := by
  subst ho
  cases answer with
  | ok token =>
    rw [resumeCommit, course_of_enterLoop rfl]
    exact ⟨rfl, .ok results, rfl, .landed token h⟩
  | error cause =>
    cases cause with
    | conflict key =>
      -- The only answer that another attempt may come after.
      by_cases hlast : e.options.maxRetries ≤ k
      · rw [resumeCommit, if_pos hlast, failPass, course_of_enterLoop rfl]
        exact ⟨rfl, .error (.retriesExhausted (k + 1)), rfl,
          .exhausted key h (UInt32.le_antisymm hk hlast)⟩
      · have hmore : k < e.options.maxRetries := UInt32.not_le.1 hlast
        have hlt := UInt32.lt_iff_toNat_lt.1 hmore
        obtain ⟨x, xs, rfl⟩ := List.exists_cons_of_length_pos (l := xs) (by omega)
        obtain ⟨hnext, outcome, hsettled, htries⟩ := retry hmore
          (x.meanwhile { e with cache := none }) x.now ids xs rfl
          (by rw [List.length_cons] at hxs; rw [toNat_add_one_of_lt hmore]; omega)
        rw [resumeCommit, if_neg hlast]
        exact ⟨hnext, outcome, hsettled, .conflict key h hmore htries⟩
    | backend | misconfigured =>
      rw [resumeCommit, failPass, course_of_enterLoop rfl]
      · refine ⟨rfl, .error (.storage _), rfl, ?_⟩
        show Tries _ _ _ _ _ _ e.cache
        rw [hcache]
        exact .refused h rfl
      · exact nofun

theorem write_concludes (ho : e.options = o) (hcache : e.cache = some base)
    (hxs : 3 * (o.maxRetries.toNat - k.toNat) + 1 ≤ xs.length) (hk : k ≤ o.maxRetries)
    (retry : k < o.maxRetries → Retries o batch epoch (k + 1)) (now : Millis)
    (ids : IdSupply) :
    ((e.write ⟨batch, k⟩ base now ids).course epoch xs).Concludes o batch epoch k (some base) := by
  obtain ⟨x, xs, rfl⟩ := List.exists_cons_of_length_pos (Nat.lt_of_lt_of_le (Nat.succ_pos _) hxs)
  subst ho
  exact wrote_concludes (e := x.meanwhile e) ⟨now, ids, rfl, rfl⟩ rfl hcache
    (Nat.le_of_succ_le_succ hxs) hk retry x.now _ x.stored

/-- After the answer to a read the pass is over, or it writes over what was read. -/
theorem read_concludes (ho : e.options = o) (hcache : e.cache = none)
    (hxs : 3 * (o.maxRetries.toNat - k.toNat) + 1 ≤ xs.length) (hk : k ≤ o.maxRetries)
    (retry : k < o.maxRetries → Retries o batch epoch (k + 1)) (now : Millis)
    (ids : IdSupply) (answer : Store.Answer .read) :
    (((e.resumeCommit epoch now ids (.reading ⟨batch, k⟩) answer).course epoch xs).after
      (.call (.read o.stateKey) answer) []).Concludes o batch epoch k none := by
  subst ho
  cases hreceived : received e.options.stateKey answer with
  | error cause =>
    simp only [resumeCommit, hreceived]
    rw [failPass, course_of_enterLoop rfl]
    refine ⟨rfl, .error cause, rfl, ?_⟩
    show Tries _ _ _ _ _ _ e.cache
    rw [hcache]
    exact .unread hreceived
  | ok base =>
    obtain ⟨hnext, outcome, hsettled, htries⟩ :=
      write_concludes (e := { e with cache := some base }) rfl rfl hxs hk retry now ids
    simp only [resumeCommit, hreceived]
    exact ⟨hnext, outcome, hsettled, .read hreceived htries⟩

theorem attempt_concludes (hk : k ≤ o.maxRetries)
    (retry : k < o.maxRetries → Retries o batch epoch (k + 1)) :
    Retries o batch epoch k := by
  intro e now ids xs ho hxs
  cases hcache : e.cache with
  | some base =>
    simp only [attempt, hcache]
    exact write_concludes ho hcache (by omega) hk retry now ids
  | none =>
    obtain ⟨x, xs, rfl⟩ := List.exists_cons_of_length_pos (l := xs) (by omega)
    simp only [attempt, hcache]
    subst ho
    exact read_concludes (e := x.meanwhile e) rfl hcache (Nat.le_of_succ_le_succ hxs) hk retry
      x.now ids x.found

theorem retries_of_le (hk : k ≤ o.maxRetries) : Retries o batch epoch k := by
  -- By induction on the retries that are left.
  induction hleft : o.maxRetries.toNat - k.toNat generalizing k with
  | zero =>
    refine attempt_concludes hk fun hmore => absurd hleft ?_
    have hlt := UInt32.lt_iff_toNat_lt.1 hmore
    omega
  | succ n ih =>
    refine attempt_concludes hk fun hmore => ih ?_ ?_
    · exact add_one_le_of_lt hmore
    · rw [toNat_add_one_of_lt hmore]
      omega

end

/-! ## What follows from the rules -/

/-- What a pass does, whatever is answered. -/
inductive Step where
  | call (a : Store.Access)
  | wait (millis : Nat)
deriving DecidableEq

namespace Event

def step : Event → Step
  | @call a _ _ => .call a
  | wait millis => .wait millis

def found? : Event → Option (Store.Answer .read)
  | @call .read _ answer => some answer
  | @call .put _ _ | wait _ => none

def stored? : Event → Option (Store.Answer .put)
  | @call .put _ answer => some answer
  | @call .read _ _ | wait _ => none

/-- A read that brings no document, or a write that fails without a conflict. -/
def failure? (key : String) : Event → Option Error
  | @call .read _ answer =>
    match received key answer with
    | .ok _ => none
    | .error cause => some cause
  | @call .put _ (.ok _) | @call .put _ (.error (.conflict _)) => none
  | @call .put _ (.error cause) => some (.storage cause)
  | wait _ => none

end Event

/-- The answers to the reads and to the writes of a pass. -/
def found (events : List Event) : List (Store.Answer .read) := events.filterMap Event.found?

def stored (events : List Event) : List (Store.Answer .put) := events.filterMap Event.stored?

section

variable (events : List Event)

@[simp] theorem found_nil : found [] = [] := rfl

@[simp] theorem found_read (call : Store.Call .read) (answer : Store.Answer .read) :
    found (.call call answer :: events) = answer :: found events := rfl

@[simp] theorem found_put (call : Store.Call .put) (answer : Store.Answer .put) :
    found (.call call answer :: events) = found events := rfl

@[simp] theorem found_wait (millis : Nat) : found (.wait millis :: events) = found events := rfl

@[simp] theorem stored_nil : stored [] = [] := rfl

@[simp] theorem stored_read (call : Store.Call .read) (answer : Store.Answer .read) :
    stored (.call call answer :: events) = stored events := rfl

@[simp] theorem stored_put (call : Store.Call .put) (answer : Store.Answer .put) :
    stored (.call call answer :: events) = answer :: stored events := rfl

@[simp] theorem stored_wait (millis : Nat) : stored (.wait millis :: events) = stored events := rfl

end

@[simp] theorem isConflict_ok (token : Store.Token) : isConflict (.ok token) = false := rfl

@[simp] theorem isConflict_conflict (key : String) : isConflict (.error (.conflict key)) = true :=
  rfl

/-- The first attempt, which reads unless there is a base at hand, and so many retries, each after
its wait. -/
def schedule (cached : Bool) (backoff first retries : Nat) : List Step :=
  (if cached then [] else [.call .read]) ++ .call .put ::
    (List.range' first retries).flatMap fun n => [.wait (backoff * n), .call .read, .call .put]

/-- The document that an attempt is based on after these events: the one that was just read, or for
the first attempt the one that was at hand. -/
inductive IsBase (key : String) (cached : Option Cached) : List Event → Cached → Prop where
  | atHand {base : Cached} (h : cached = some base) : IsBase key cached [] base
  | read {before : List Event} {answer : Store.Answer .read} {base : Cached}
    (h : received key answer = .ok base) :
    IsBase key cached (before ++ [.call (.read key) answer]) base

theorem IsBase.cons_read {key : String} {cached : Option Cached} {base base' : Cached}
    {answer : Store.Answer .read} {events : List Event} (h : received key answer = .ok base)
    (hbase : IsBase key (some base) events base') :
    IsBase key cached (.call (.read key) answer :: events) base' := by
  cases hbase with
  | atHand heq =>
    cases heq
    exact @IsBase.read _ _ [] _ _ h
  | read h' => exact @IsBase.read _ _ (_ :: _) _ _ h'

theorem IsBase.cons_cons {key : String} {cached : Option Cached} {base : Cached}
    {events : List Event} (h : IsBase key none events base) (x y : Event) :
    IsBase key cached (x :: y :: events) base := by
  cases h with
  | atHand heq => cases heq
  | read h' => exact @IsBase.read _ _ (_ :: _ :: _) _ _ h'

theorem received_ne_exhausted {key : String} {answer : Store.Answer .read} {cause : Error}
    (h : received key answer = .error cause) (n : UInt32) : cause ≠ .retriesExhausted n := by
  rintro rfl
  revert h
  fun_cases received key answer
  all_goals
    intro h
    cases h

theorem failure?_refused {key : String} {call : Store.Call .put} {cause : Store.Error}
    (h : isConflict (.error cause) = false) :
    (Event.call call (.error cause)).failure? key = some (.storage cause) := by
  cases cause with
  | conflict => cases h
  | backend | misconfigured => rfl

namespace Tries

variable {o : Options} {batch : List Pending} {k : UInt32} {cached left : Option Cached}
  {events : List Event} {outcome : Outcome}

theorem map_step_prefix (h : Tries o batch k cached events outcome left)
    (hk : k ≤ o.maxRetries) : events.map Event.step <+:
      schedule cached.isSome o.conflictBackoff (k.toNat + 1) (o.maxRetries.toNat - k.toNat) := by
  induction h with
  | unread | landed | refused | exhausted => exact List.prefix_append [_] _
  | read _ _ ih => exact List.cons_prefix_cons.2 ⟨rfl, ih hk⟩
  | @conflict k _ _ _ _ _ _ _ _ hmore _ ih =>
    have hlt := UInt32.lt_iff_toNat_lt.1 hmore
    have hcount := toNat_add_one_of_lt hmore
    have hleft : o.maxRetries.toNat - k.toNat = o.maxRetries.toNat - (k + 1).toNat + 1 := by omega
    have hrest := ih (add_one_le_of_lt hmore)
    rw [hleft, ← hcount]
    exact List.cons_prefix_cons.2 ⟨rfl, List.cons_prefix_cons.2 ⟨rfl, hrest⟩⟩

theorem length_stored_le (h : Tries o batch k cached events outcome left)
    (hk : k ≤ o.maxRetries) : k.toNat + (stored events).length ≤ o.maxRetries.toNat + 1 := by
  induction h with
  | unread => exact Nat.le_succ_of_le (UInt32.le_iff_toNat_le.1 hk)
  | landed | refused | exhausted => exact Nat.succ_le_succ (UInt32.le_iff_toNat_le.1 hk)
  | read _ _ ih => exact ih hk
  | conflict _ _ hmore _ ih =>
    have hrest := ih (add_one_le_of_lt hmore)
    rw [toNat_add_one_of_lt hmore] at hrest
    simp only [stored_put, stored_wait, List.length_cons]
    omega

theorem exists_eq_ok_iff (h : Tries o batch k cached events outcome left)
    (hk : k ≤ o.maxRetries) : (∃ results, outcome = .ok results) ↔
      (∃ token, (stored events).find? (!isConflict ·) = some (.ok token)) ∧
      k.toNat + ((stored events).takeWhile isConflict).length ≤ o.maxRetries.toNat ∧
      ∀ answer ∈ found events, ∃ base, received o.stateKey answer = .ok base := by
  induction h with
  | unread | exhausted => simp
  | read h _ ih => simpa [h] using ih hk
  | landed => simpa using UInt32.le_iff_toNat_le.1 hk
  | refused _ hcause => simp [hcause]
  | conflict _ _ hmore _ ih =>
    have hrest := ih (add_one_le_of_lt hmore)
    rw [toNat_add_one_of_lt hmore] at hrest
    simpa [List.takeWhile_cons, Nat.add_assoc, Nat.add_comm 1] using hrest

theorem eq_exhausted_iff (h : Tries o batch k cached events outcome left)
    (hk : k ≤ o.maxRetries) (n : UInt32) : outcome = .error (.retriesExhausted n) ↔
      n = o.maxRetries + 1 ∧ k.toNat + (stored events).length = o.maxRetries.toNat + 1 ∧
      ∀ answer ∈ stored events, isConflict answer = true := by
  induction h with
  | unread h =>
    have hlt := Nat.lt_succ_of_le (UInt32.le_iff_toNat_le.1 hk)
    simp [received_ne_exhausted h, Nat.ne_of_lt hlt]
  | read h _ ih => simpa using ih hk
  | landed => simp
  | refused _ hcause => simp [hcause]
  | exhausted _ _ hlast =>
    subst hlast
    simp only [stored_put, stored_nil, Except.error.injEq, Error.retriesExhausted.injEq,
      List.length_singleton, List.forall_mem_singleton, isConflict_conflict, and_true]
    exact eq_comm
  | conflict _ _ hmore _ ih =>
    have hrest := ih (add_one_le_of_lt hmore)
    rw [toNat_add_one_of_lt hmore] at hrest
    simpa [Nat.add_assoc, Nat.add_comm 1] using hrest

theorem failure_iff (h : Tries o batch k cached events outcome left) (cause : Error) :
    (outcome = .error cause ∧ ∀ n, cause ≠ .retriesExhausted n) ↔
      ∃ x ∈ events, x.failure? o.stateKey = some cause := by
  induction h with
  | unread h =>
    simp only [List.mem_singleton, exists_eq_left, Event.failure?, h, Except.error.injEq,
      Option.some.injEq, and_iff_left_iff_imp]
    rintro rfl
    exact received_ne_exhausted h
  | read h _ ih => simpa [Event.failure?, h] using ih
  | landed => simp [Event.failure?]
  | refused _ hcause =>
    simp only [List.mem_singleton, exists_eq_left, failure?_refused hcause, Except.error.injEq,
      Option.some.injEq, and_iff_left_iff_imp]
    rintro rfl
    exact nofun
  | exhausted =>
    simp only [List.mem_singleton, exists_eq_left, Event.failure?, reduceCtorEq, iff_false]
    rintro ⟨heq, hne⟩
    exact hne _ (Except.error.inj heq).symm
  | conflict _ _ _ _ ih => simpa [Event.failure?] using ih

theorem ne_nil (h : Tries o batch k cached events outcome left) : events ≠ [] := by
  cases h <;> exact List.cons_ne_nil _ _

theorem failure?_of_mem_dropLast (h : Tries o batch k cached events outcome left) :
    ∀ x ∈ events.dropLast, x.failure? o.stateKey = none := by
  induction h with
  | unread | landed | refused | exhausted => exact List.forall_mem_nil _
  | read h hrest ih =>
    rw [List.dropLast_cons_of_ne_nil hrest.ne_nil]
    exact List.forall_mem_cons.2 ⟨by simp [Event.failure?, h], ih⟩
  | conflict _ _ _ hrest ih =>
    rw [List.dropLast_cons_of_ne_nil (List.cons_ne_nil _ _),
      List.dropLast_cons_of_ne_nil hrest.ne_nil]
    exact List.forall_mem_cons.2 ⟨rfl, List.forall_mem_cons.2 ⟨rfl, ih⟩⟩

theorem eq_none_of_exhausted (h : Tries o batch k cached events outcome left) {n : UInt32}
    (hexhausted : outcome = .error (.retriesExhausted n)) : left = none := by
  induction h with
  | unread | exhausted => rfl
  | landed | refused => cases hexhausted
  | read _ _ ih | conflict _ _ _ _ ih => exact ih hexhausted

theorem eq_none_of_unread (h : Tries o batch k cached events outcome left)
    {answer : Store.Answer .read} (hanswer : answer ∈ found events) {cause : Error}
    (hcause : received o.stateKey answer = .error cause) : left = none := by
  induction h with
  | unread | exhausted => rfl
  | landed | refused => cases hanswer
  | read h _ ih =>
    rcases List.mem_cons.1 hanswer with rfl | hmore
    · rw [h] at hcause
      cases hcause
    · exact ih hmore
  | conflict _ _ _ _ ih => exact ih hanswer

theorem of_write (h : Tries o batch k cached events outcome left) {before after : List Event}
    {call : Store.Call .put} {answer : Store.Answer .put}
    (hevents : events = before ++ .call call answer :: after) :
    ∃ base document results, IsBase o.stateKey cached before base ∧
      Write.FoldsOver o.heartbeatTimeout base.document ⟨batch, document, results⟩ ∧
      call = .write o.stateKey document.encode base.token ∧
      (∀ token, answer = .ok token → outcome = .ok results ∧ left = some ⟨document, token⟩) ∧
      ∀ cause, answer = .error cause → isConflict answer = false → left = some base := by
  induction h generalizing before with
  | unread =>
    obtain _ | ⟨_, _ | _⟩ := before <;> cases hevents
  | read h _ ih =>
    obtain _ | ⟨x, before⟩ := before
    · cases hevents
    · simp only [List.cons_append, List.cons.injEq] at hevents
      obtain ⟨rfl, hevents⟩ := hevents
      obtain ⟨base, document, results, hbase, hwrite⟩ := ih hevents
      exact ⟨base, document, results, hbase.cons_read h, hwrite⟩
  | landed token h =>
    obtain _ | ⟨_, _ | _⟩ := before <;> cases hevents
    refine ⟨_, _, _, .atHand rfl, h, rfl, ?_, nofun⟩
    rintro _ ⟨⟩
    exact ⟨rfl, rfl⟩
  | refused h hcause =>
    obtain _ | ⟨_, _ | _⟩ := before <;> cases hevents
    exact ⟨_, _, _, .atHand rfl, h, rfl, nofun, fun _ _ _ => rfl⟩
  | exhausted key h hlast =>
    obtain _ | ⟨_, _ | _⟩ := before <;> cases hevents
    exact ⟨_, _, _, .atHand rfl, h, rfl, nofun, nofun⟩
  | conflict key h hmore rest ih =>
    obtain _ | ⟨x, _ | ⟨y, before⟩⟩ := before
    · cases hevents
      exact ⟨_, _, _, .atHand rfl, h, rfl, nofun, nofun⟩
    · -- Right after a conflict there is a wait and no call.
      cases hevents
    · simp only [List.cons_append, List.cons.injEq] at hevents
      obtain ⟨rfl, rfl, hevents⟩ := hevents
      obtain ⟨base, document, results, hbase, hwrite⟩ := ih hevents
      exact ⟨base, document, results, hbase.cons_cons _ _, hwrite⟩

end Tries

/-! ## Passes of engines -/

/-- What a pass over a batch does and leaves behind if it comes to this outcome.  All answers that
it gets are in its events. -/
structure Course.ComesTo (course : Course) (o : Options) (cached : Option Cached)
    (batch : List Pending) (outcome : Outcome) : Prop where
  /-- It breaks off somewhere in the schedule of all its attempts. -/
  scheduled : course.events.map Event.step <+:
    schedule cached.isSome o.conflictBackoff 1 o.maxRetries.toNat
  writes : (stored course.events).length ≤ o.maxRetries.toNat + 1
  /-- There are results if the first write that meets no conflict lands, if it is not one retry too
  many, and if no read failed; and only then. -/
  ok_iff : (∃ results, outcome = .ok results) ↔
    (∃ token, (stored course.events).find? (!isConflict ·) = some (.ok token)) ∧
    ((stored course.events).takeWhile isConflict).length ≤ o.maxRetries.toNat ∧
    ∀ answer ∈ found course.events, ∃ base, received o.stateKey answer = .ok base
  /-- The retries are used up if every write of the schedule met a conflict; the error counts the
  writes, in 32 bits. -/
  exhausted_iff (n : UInt32) : outcome = .error (.retriesExhausted n) ↔
    n = o.maxRetries + 1 ∧ (stored course.events).length = o.maxRetries.toNat + 1 ∧
    ∀ answer ∈ stored course.events, isConflict answer = true
  /-- Every other error is that of a call. -/
  failed_iff (cause : Error) : (outcome = .error cause ∧ ∀ n, cause ≠ .retriesExhausted n) ↔
    ∃ x ∈ course.events, x.failure? o.stateKey = some cause
  /-- Nothing comes after a call that failed. -/
  at_once : ∀ x ∈ course.events.dropLast, x.failure? o.stateKey = none
  /-- Every write puts what a pass makes of its base over that base.  If it lands the engine has
  what was stored; if it fails without a conflict the engine still has the base. -/
  of_write {before after : List Event} {call : Store.Call .put} {answer : Store.Answer .put}
    (h : course.events = before ++ .call call answer :: after) :
    ∃ base document results, IsBase o.stateKey cached before base ∧
      Write.FoldsOver o.heartbeatTimeout base.document ⟨batch, document, results⟩ ∧
      call = .write o.stateKey document.encode base.token ∧
      (∀ token, answer = .ok token →
        outcome = .ok results ∧ course.engine.cache = some ⟨document, token⟩) ∧
      ∀ cause, answer = .error cause → isConflict answer = false →
        course.engine.cache = some base
  /-- Nothing is left of a base that was lost, or never read. -/
  emptied {n : UInt32} (h : outcome = .error (.retriesExhausted n)) : course.engine.cache = none
  unread {answer : Store.Answer .read} (h : answer ∈ found course.events) {cause : Error}
    (hcause : received o.stateKey answer = .error cause) : course.engine.cache = none

/-- **A pass comes to what the store answers**, whatever that is, and is over after so many answers.
Others may submit and stop all the while. -/
theorem attempt_comesTo (e : Engine) (batch : List Pending) (epoch : Nat) (now : Millis)
    (ids : IdSupply) (xs : List Encounter) (h : 3 * e.options.maxRetries.toNat + 2 ≤ xs.length) :
    let course := (e.attempt ⟨batch, 0⟩ now ids).course epoch xs
    course.next = course.engine.enterLoop epoch ∧
      ∃ outcome : Outcome, course.settled = outcome.settle batch ∧
        course.ComesTo e.options e.cache batch outcome := by
  have hzero : 0 ≤ e.options.maxRetries := UInt32.zero_le
  have hretries : Retries e.options batch epoch 0 := retries_of_le hzero
  obtain ⟨hnext, outcome, hsettled, htries⟩ := hretries e now ids xs rfl h
  refine ⟨hnext, outcome, hsettled, ?_⟩
  exact {
    scheduled := htries.map_step_prefix hzero
    writes := by simpa using htries.length_stored_le hzero
    ok_iff := by simpa using htries.exists_eq_ok_iff hzero
    exhausted_iff := by simpa using htries.eq_exhausted_iff hzero
    failed_iff := htries.failure_iff
    at_once := htries.failure?_of_mem_dropLast
    of_write := htries.of_write
    emptied := htries.eq_none_of_exhausted
    unread := htries.eq_none_of_unread }

/-- One conflict, and then a write that makes it; meanwhile someone submits. -/
def contested : List Encounter :=
  let submission : Pending := ⟨8, .heartbeat "job" "worker"⟩
  let encounter (found : Store.Answer .read) (stored : Store.Answer .put) : Encounter :=
    ⟨found, stored, 5, .running, 1, [submission]⟩
  [encounter (.ok (some ⟨Document.empty.encode, "1"⟩)) (.ok ""),
    encounter (.ok none) (.error (.conflict "state")),
    encounter (.ok none) (.ok ""),
    encounter (.ok (some ⟨Document.empty.encode, "2"⟩)) (.ok ""),
    encounter (.ok none) (.ok "3")]

theorem attempt_comesTo_contested :
    let o : Options := ⟨"state", 50, 30000, 20, 1⟩
    let batch : List Pending := [⟨7, .registerBroker "host" 5⟩]
    let course := ((create o).attempt ⟨batch, 0⟩ 5 ⟨fun _ => "", 0⟩).course 1 contested
    course.events.map Event.step =
      [.call .read, .call .put, .wait 20, .call .read, .call .put] ∧
    course.settled = [⟨7, .ok .applied⟩] ∧
    course.engine.cache = some ⟨Document.withBroker "host" 5, "3"⟩ ∧
    course.next = .rest ∧
    ∃ outcome : Outcome, course.settled = outcome.settle batch ∧
      course.ComesTo o none batch outcome := by
  intro o batch course
  obtain ⟨hnext, houtcome⟩ := attempt_comesTo (create o) batch 1 5 ⟨fun _ => "", 0⟩ contested
    (by decide)
  exact ⟨rfl, rfl, rfl, hnext, houtcome⟩

end LeaseQueue.Engine
