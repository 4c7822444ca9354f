import LeaseQueue.Proofs.Store.Cells
import LeaseQueue.Proofs.Store.Memory
import LeaseQueue.Store.Remote

/-!
# Object stores and storage in memory

An object store has objects under paths.  It refuses a put that its condition does not admit, and
gives each object that it stores a new revision (`Holdings.Step`).  Used through either part of a
revision it keeps a cell under every key, and so does storage in memory.  So nobody can tell one
from the other, but by the tokens:

  `(r.server store).session key demands s [] =`
  `  (Memory.server.session key demands Memory.empty []).map (Outcome.rename ρ)`
-/

namespace LeaseQueue.Store

/-! ## What is expected of an object store -/

/-- Answers requests in a state. -/
structure ObjectStore (σ : Type) where
  reply {a : Access} : σ → Request a → Reply a × σ

def TokenField.part? : TokenField → Revision → Option Token
  | .entityTag, revision => revision.entityTag
  | .generation, revision => revision.version

/-- A revision of which only this part is given. -/
def TokenField.only : TokenField → Token → Revision
  | .entityTag, token => ⟨some token, none⟩
  | .generation, token => ⟨none, some token⟩

/-- A put has been refused because of its condition. -/
inductive ObjectError.IsRefusal : ObjectError → Prop where
  | precondition (path detail : String) : IsRefusal (.precondition path detail)
  | alreadyExists (path detail : String) : IsRefusal (.alreadyExists path detail)
  | notFound (path detail : String) : IsRefusal (.notFound path detail)

/-- The objects of a store, and the tokens that it has used. -/
structure Holdings where
  object? : String → Option (Bytes × Revision)
  used : List Token

namespace Holdings

def store (h : Holdings) (path : String) (data : Bytes) (revision : Revision) (token : Token) :
    Holdings where
  object? p := if p = path then some (data, revision) else h.object? p
  used := token :: h.used

/-- What a store replies to a request, and what becomes of its objects.  One part of their revisions
says whether they are what somebody expects. -/
inductive Step (field : TokenField) (h : Holdings) :
    {a : Access} → Request a → Reply a → Holdings → Prop where
  | missing {path named detail : String} (hnone : h.object? path = none) :
    Step field h (.get path) (.error (.notFound named detail)) h
  | found {path : String} {chunks : List Bytes} {revision : Revision}
    (hsome : h.object? path = some (chunks.flatten, revision)) :
    Step field h (.get path) (.ok ⟨revision, chunks, none⟩) h
  | taken {path : String} {data : Bytes} {old : Bytes × Revision} {cause : ObjectError}
    (hsome : h.object? path = some old) (hcause : cause.IsRefusal) :
    Step field h (.put path data .create) (.error cause) h
  | created {path : String} {data : Bytes} {revision : Revision} {token : Token}
    (hnone : h.object? path = none) (hpart : field.part? revision = some token)
    (hfresh : token ∉ h.used) :
    Step field h (.put path data .create) (.ok revision) (h.store path data revision token)
  | refused {path : String} {data : Bytes} {expected : Revision} {cause : ObjectError}
    (hdiffers : ∀ old ∈ h.object? path, field.part? old.2 ≠ field.part? expected)
    (hcause : cause.IsRefusal) : Step field h (.put path data (.update expected)) (.error cause) h
  | replaced {path : String} {data : Bytes} {expected : Revision} {old : Bytes × Revision}
    {revision : Revision} {token : Token} (hsome : h.object? path = some old)
    (hsame : field.part? old.2 = field.part? expected) (hpart : field.part? revision = some token)
    (hfresh : token ∉ h.used) :
    Step field h (.put path data (.update expected)) (.ok revision)
      (h.store path data revision token)

end Holdings

/-- What the store has is told by its state, and each request does to it what it should. -/
structure ObjectStore.Conforms {σ : Type} (store : ObjectStore σ) (field : TokenField)
    (holdings : σ → Holdings) : Prop where
  get (s : σ) (path : String) : Holdings.Step field (holdings s) (.get path)
    (store.reply s (.get path)).1 (holdings (store.reply s (.get path)).2)
  create (s : σ) (path : String) (data : Bytes) :
    Holdings.Step field (holdings s) (.put path data .create)
      (store.reply s (.put path data .create)).1
      (holdings (store.reply s (.put path data .create)).2)
  update (s : σ) (path : String) (data : Bytes) (expected : Token) :
    Holdings.Step field (holdings s) (.put path data (.update (field.only expected)))
      (store.reply s (.put path data (.update (field.only expected)))).1
      (holdings (store.reply s (.put path data (.update (field.only expected)))).2)

/-! ## Servers -/

def Memory.server : Server Memory where
  answer m call :=
    let (m, pending) := m.accept call
    m.finish pending

def Remote.server {σ : Type} (r : Remote) (store : ObjectStore σ) : Server σ where
  answer s call :=
    let (reply, s) := store.reply s (r.request call)
    (r.answer call reply, s)

/-! ## Storage in memory keeps cells -/

namespace Memory

/-- What is under the key is what the cell has. -/
structure Holds (m : Memory) (key : String) (c : Cell) : Prop where
  object : c.object = (m.entry? key).map Entry.toObject
  issued : ∀ token ∈ c.issued, ∃ v, v ≤ m.lastVersion ∧ token = toString v
  counted : m.lastVersion ≤ c.issued.length
  failure : m.options.failure = none

variable {m : Memory} {key : String} {c : Cell}

theorem holds_empty (key : String) : empty.Holds key .empty := ⟨rfl, nofun, Nat.le_refl _, rfl⟩

theorem Holds.fresh (h : m.Holds key c) : toString (m.lastVersion + 1) ∉ c.issued := by
  intro hmem
  obtain ⟨v, hle, heq⟩ := h.issued _ hmem
  have hv := toString_injective heq
  omega

theorem Holds.store (h : m.Holds key c) (data : Bytes) :
    (m.store key data).2.Holds key (c.store data _ h.fresh) where
  object := by
    rw [entry?_store, if_pos rfl]
    rfl
  issued token htoken := by
    rcases List.mem_cons.1 htoken with rfl | hold
    · exact ⟨_, Nat.le_refl _, rfl⟩
    · obtain ⟨v, hle, heq⟩ := h.issued token hold
      exact ⟨v, Nat.le_succ_of_le hle, heq⟩
  counted := Nat.succ_le_succ h.counted
  failure := h.failure

/-- A token that was issued is that of the object just if its version is. -/
theorem Holds.parseVersion?_iff (h : m.Holds key c) (hcounted : c.issued.length < UInt64.size)
    {token : Token} (htoken : token ∈ c.issued) (e : Entry) :
    parseVersion? token = some e.version ↔ e.toObject.token = token := by
  obtain ⟨v, hle, rfl⟩ := h.issued token htoken
  have hle' := h.counted
  rw [parseVersion?_toString (by omega), Option.some_inj]
  exact ⟨fun heq => congrArg toString heq.symm, fun heq => toString_injective heq.symm⟩

theorem Holds.serve (h : m.Holds key c) (hcounted : c.issued.length < UInt64.size) {a : Access}
    {call : Call a} (hkey : call.key = key) (hissued : ∀ token ∈ call.expected?, token ∈ c.issued) :
    ∃ c', c.Step call (m.serve call).1 c' ∧ (m.serve call).2.Holds key c' := by
  subst hkey
  cases call with
  | read key =>
    refine ⟨c, ?_, h⟩
    have hanswer : m.serve (.read key) = (.ok c.object, m) := by rw [h.object]; rfl
    rw [hanswer]
    cases ho : c.object with
    | none => exact .missing ho
    | some o => exact .found ho
  | create key data =>
    have hobject : c.object = (m.entry? key).map Entry.toObject := h.object
    simp only [Memory.serve]
    split
    next e he =>
      rw [he] at hobject
      exact ⟨c, .taken hobject, h⟩
    next he =>
      rw [he] at hobject
      exact ⟨_, .created hobject h.fresh, h.store data⟩
  | write key data expected =>
    have hobject : c.object = (m.entry? key).map Entry.toObject := h.object
    have hversion := h.parseVersion?_iff hcounted (hissued expected rfl)
    simp only [Memory.serve]
    split
    next he =>
      rw [he] at hobject
      refine ⟨c, .refused fun o ho => ?_, h⟩
      cases hobject.symm.trans ho
    next e he =>
      rw [he] at hobject
      split
      next hsame =>
        obtain rfl := (hversion e).1 hsame
        exact ⟨_, .replaced hobject h.fresh, h.store data⟩
      next hdiffers =>
        refine ⟨c, .refused fun o ho htoken => hdiffers ((hversion e).2 ?_), h⟩
        obtain rfl := Option.some.inj (hobject.symm.trans ho)
        exact htoken

theorem Holds.accept (h : m.Holds key c) {a : Access} (call : Call a) :
    (m.accept call).1.Holds key c := by
  cases call <;> exact ⟨h.object, h.issued, h.counted, h.failure⟩

theorem keeps (key : String) : server.Keeps key UInt64.size fun m c => m.Holds key c := by
  intro m c a call h hcounted hkey hissued
  have hanswer : server.answer m call = (m.accept call).1.serve call := by
    show (m.accept call).1.finish (m.accept call).2 = _
    have hpending : (m.accept call).2 = ⟨call, none⟩ :=
      congrArg (Pending.mk call) (h.accept call).failure
    rw [hpending]
    rfl
  rw [hanswer]
  exact (h.accept call).serve hcounted hkey hissued

end Memory

/-! ## Object stores keep cells -/

theorem TokenField.part?_only (field : TokenField) (token : Token) :
    field.part? (field.only token) = some token := by
  cases field <;> rfl

namespace Holdings

/-- What is under the path is what the cell has. -/
structure Holds (h : Holdings) (field : TokenField) (path : String) (c : Cell) : Prop where
  object : Option.Rel (fun old o => old.1 = o.data ∧ field.part? old.2 = some o.token)
    (h.object? path) c.object
  issued : ∀ token ∈ c.issued, token ∈ h.used

variable {h h' : Holdings} {field : TokenField} {path : String} {c : Cell}

theorem Holds.of_none (hholds : h.Holds field path c) (hnone : h.object? path = none) :
    c.object = none := by
  have hobject := hholds.object
  rw [hnone] at hobject
  generalize c.object = object at hobject
  cases hobject
  rfl

theorem Holds.of_some (hholds : h.Holds field path c) {old : Bytes × Revision}
    (hsome : h.object? path = some old) :
    ∃ token, c.object = some ⟨old.1, token⟩ ∧ field.part? old.2 = some token := by
  have hobject := hholds.object
  rw [hsome] at hobject
  generalize c.object = object at hobject
  cases hobject with
  | @some _ o h =>
    obtain ⟨hdata, hpart⟩ := h
    exact ⟨o.token, by rw [hdata], hpart⟩

theorem Holds.of_object (hholds : h.Holds field path c) {o : Object} (ho : c.object = some o) :
    ∃ old, h.object? path = some old ∧ field.part? old.2 = some o.token := by
  have hobject := hholds.object
  rw [ho] at hobject
  generalize h.object? path = found at hobject
  cases hobject with
  | @some old _ h => exact ⟨old, rfl, h.2⟩

theorem Holds.store (hholds : h.Holds field path c) (data : Bytes) {revision : Revision}
    {token : Token} (hpart : field.part? revision = some token) (hfresh : token ∉ h.used) :
    ∃ hfresh' : token ∉ c.issued,
      (h.store path data revision token).Holds field path (c.store data token hfresh') := by
  refine ⟨fun hmem => hfresh (hholds.issued token hmem), ?_, fun token' hmem => ?_⟩
  · have hobject : (h.store path data revision token).object? path = some (data, revision) :=
      if_pos rfl
    rw [hobject]
    exact .some ⟨rfl, hpart⟩
  · exact (List.mem_cons.1 hmem).elim (· ▸ List.mem_cons_self) fun hold =>
      List.mem_cons_of_mem _ (hholds.issued token' hold)

end Holdings

namespace Remote

variable {r : Remote} {h h' : Holdings} {key path : String} {c : Cell}

theorem expected_eq (r : Remote) (token : Token) : r.expected token = r.field.only token := by
  unfold expected
  cases r.field <;> rfl

theorem part?_expected (r : Remote) (token : Token) :
    r.field.part? (r.expected token) = some token := by
  rw [expected_eq, TokenField.part?_only]

theorem token_of_part? {revision : Revision} {token : Token}
    (h : r.field.part? revision = some token) (operation : String) :
    r.token operation revision = .ok token := by
  obtain ⟨entityTag, version⟩ := revision
  unfold Remote.token
  cases hfield : r.field <;> rw [hfield] at h <;> cases h <;> rfl

theorem putError_of_isRefusal {cause : ObjectError} (h : cause.IsRefusal) (key operation : String) :
    r.putError key operation cause = .conflict key := by
  cases h <;> rfl

/-! What a reply means for the call is what a cell answers. -/

theorem step_read (hholds : h.Holds r.field path c) {reply : Reply .read}
    (hstep : h.Step r.field (.get path) reply h') :
    ∃ c', c.Step (.read key) (r.answer (.read key) reply) c' ∧ h'.Holds r.field path c' := by
  cases hstep with
  | missing hnone => exact ⟨c, .missing (hholds.of_none hnone), hholds⟩
  | found hsome =>
    obtain ⟨token, ho, hpart⟩ := hholds.of_some hsome
    refine ⟨c, ?_, hholds⟩
    rw [answer, receive, token_of_part? hpart]
    exact .found ho

theorem step_create (hholds : h.Holds r.field path c) {data : Bytes} {reply : Reply .put}
    (hstep : h.Step r.field (.put path data .create) reply h') :
    ∃ c', c.Step (.create key data) (r.answer (.create key data) reply) c' ∧
      h'.Holds r.field path c' := by
  cases hstep with
  | taken hsome hcause =>
    obtain ⟨token, ho, -⟩ := hholds.of_some hsome
    refine ⟨c, ?_, hholds⟩
    rw [answer, putError_of_isRefusal hcause]
    exact .taken ho
  | created hnone hpart hfresh =>
    obtain ⟨hfresh', hstored⟩ := hholds.store data hpart hfresh
    refine ⟨_, ?_, hstored⟩
    rw [answer, token_of_part? hpart]
    exact .created (hholds.of_none hnone) hfresh'

theorem step_write (hholds : h.Holds r.field path c) {data : Bytes} {expected : Token}
    {reply : Reply .put}
    (hstep : h.Step r.field (.put path data (.update (r.expected expected))) reply h') :
    ∃ c', c.Step (.write key data expected) (r.answer (.write key data expected) reply) c' ∧
      h'.Holds r.field path c' := by
  cases hstep with
  | refused hdiffers hcause =>
    refine ⟨c, ?_, hholds⟩
    rw [answer, putError_of_isRefusal hcause]
    refine .refused fun o ho htoken => ?_
    obtain ⟨old, hsome, hold⟩ := hholds.of_object ho
    exact hdiffers old hsome (by rw [hold, htoken, part?_expected])
  | replaced hsome hsame hpart hfresh =>
    obtain ⟨token, ho, hold⟩ := hholds.of_some hsome
    obtain ⟨hfresh', hstored⟩ := hholds.store data hpart hfresh
    rw [hold, part?_expected] at hsame
    obtain rfl := Option.some.inj hsame
    refine ⟨_, ?_, hstored⟩
    rw [answer, token_of_part? hpart]
    exact .replaced ho hfresh'

/-- **An object store that conforms keeps a cell under every key.** -/
theorem keeps {σ : Type} {store : ObjectStore σ} {holdings : σ → Holdings}
    (hconforms : store.Conforms r.field holdings) (key : String) (limit : Nat) :
    (r.server store).Keeps key limit fun s c => (holdings s).Holds r.field (r.path key) c := by
  intro s c a call hholds _ hkey _
  subst hkey
  cases call with
  | read key => exact step_read hholds (hconforms.get s _)
  | create key data => exact step_create hholds (hconforms.create s _ data)
  | write key data expected =>
    have hupdate := hconforms.update s (r.path key) data expected
    rw [← expected_eq] at hupdate
    exact step_write hholds hupdate

end Remote

/-! ## The object store in memory -/

namespace ObjectMap

def objectStore : ObjectStore ObjectMap := ⟨serve⟩

def holdings (m : ObjectMap) : Holdings where
  object? path := (m.entry? path).map fun e => (e.data, ⟨some (toString e.entityTag), none⟩)
  used := (List.range m.nextTag).reverse.map toString

variable {m : ObjectMap} {path : String}

theorem holdings_store (m : ObjectMap) (path : String) (data : Bytes) :
    (m.store path data).2.holdings =
      m.holdings.store path data ⟨some (toString m.nextTag), none⟩ (toString m.nextTag) := by
  have hlookup (p : String) : (setEntry path ⟨data, m.nextTag⟩ m.entries).lookup p =
      if p = path then some ⟨data, m.nextTag⟩ else m.entries.lookup p :=
    lookup_set (setEntry path _) rfl (fun _ _ _ => rfl) p m.entries
  simp only [store, holdings, entry?, Holdings.store, hlookup, List.range_succ,
    List.reverse_append, List.reverse_singleton, List.singleton_append, List.map_cons,
    Holdings.mk.injEq, and_true]
  funext p
  split <;> rfl

theorem nextTag_notMem_used (m : ObjectMap) : toString m.nextTag ∉ m.holdings.used := by
  intro hmem
  obtain ⟨n, hn, heq⟩ := List.mem_map.1 hmem
  obtain rfl := Memory.toString_injective heq
  exact Nat.lt_irrefl _ (List.mem_range.1 (List.mem_reverse.1 hn))

theorem object?_holdings (m : ObjectMap) (path : String) : m.holdings.object? path =
    (m.entry? path).map fun e => (e.data, ⟨some (toString e.entityTag), none⟩) := rfl

/-- The entity tags of the store in memory are all that is needed. -/
theorem conforms : objectStore.Conforms .entityTag holdings where
  get m path := by
    have hobject := m.object?_holdings path
    simp only [objectStore, serve]
    cases he : m.entry? path with
    | none => exact .missing (by rw [hobject, he]; rfl)
    | some e => exact .found (by rw [hobject, he, List.flatten_singleton]; rfl)
  create m path data := by
    have hobject := m.object?_holdings path
    simp only [objectStore, serve]
    cases he : m.entry? path with
    | none =>
      dsimp only
      rw [holdings_store]
      exact .created (by rw [hobject, he]; rfl) rfl m.nextTag_notMem_used
    | some e =>
      rw [he] at hobject
      exact .taken hobject (.alreadyExists _ _)
  update m path data expected := by
    have hobject := m.object?_holdings path
    simp only [objectStore, serve, TokenField.only]
    cases he : m.entry? path with
    | none =>
      refine .refused (fun old hold => ?_) (.precondition _ _)
      rw [hobject, he] at hold
      cases hold
    | some e =>
      rw [he] at hobject
      dsimp only
      split
      next htag =>
        rw [holdings_store]
        exact .replaced hobject (congrArg some htag) rfl m.nextTag_notMem_used
      next htag =>
        refine .refused (fun old hold hsame => htag ?_) (.precondition _ _)
        obtain rfl := Option.some.inj (hobject.symm.trans hold)
        exact Option.some.inj hsame

end ObjectMap

/-- **An object store and storage in memory answer alike.**  A session under a key where nothing is
stored yet comes to the same at both, but for a renaming of the tokens. -/
theorem Remote.session_rename {σ : Type} (r : Remote) (store : ObjectStore σ)
    (holdings : σ → Holdings) (key : String) (demands : List Demand) (s : σ)
    (hconforms : store.Conforms r.field holdings)
    (habsent : (holdings s).object? (r.path key) = none)
    (hcounted : demands.length ≤ UInt64.size) :
    ∃ ρ : Equiv.Perm Token, (r.server store).session key demands s [] =
      (Memory.server.session key demands .empty []).map (·.rename ρ) := by
  have hholds : (holdings s).Holds r.field (r.path key) .empty :=
    ⟨by rw [habsent]; exact .none, nofun⟩
  exact Server.exists_renaming (Memory.keeps key) (Remote.keeps hconforms key demands.length)
    (Memory.holds_empty key) hholds hcounted (Nat.le_refl _)

/-- Two clients create an object and replace it, and each is too late once. -/
def rivals : List Demand :=
  [.read, .create [1], .read, .write [2] 1, .write [3] 2, .create [4], .read, .write [5] 6]

theorem Remote.session_rename_rivals :
    let r : Remote := ⟨"s3", some "jobs", .entityTag⟩
    ObjectMap.objectStore.Conforms r.field ObjectMap.holdings ∧
    ObjectMap.empty.holdings.object? (r.path "queue.json") = none ∧
    rivals.length ≤ UInt64.size ∧
    (∃ ρ : Equiv.Perm Token,
      (r.server ObjectMap.objectStore).session "queue.json" rivals .empty [] =
        (Memory.server.session "queue.json" rivals .empty []).map (·.rename ρ)) ∧
    Memory.server.session "queue.json" rivals .empty [] =
      [⟨.read, .ok none⟩, ⟨.put, .ok "1"⟩, ⟨.read, .ok (some ⟨[1], "1"⟩)⟩, ⟨.put, .ok "2"⟩,
        ⟨.put, .error (.conflict "queue.json")⟩, ⟨.put, .error (.conflict "queue.json")⟩,
        ⟨.read, .ok (some ⟨[2], "2"⟩)⟩, ⟨.put, .ok "3"⟩] := by
  intro r
  have habsent : ObjectMap.empty.holdings.object? (r.path "queue.json") = none := rfl
  have hcounted : rivals.length ≤ UInt64.size := by decide
  exact ⟨ObjectMap.conforms, habsent, hcounted, r.session_rename _ _ _ rivals _
    ObjectMap.conforms habsent hcounted, by rfl⟩

end LeaseQueue.Store
