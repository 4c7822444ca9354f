import LeaseQueue.Proofs.Store.Memory

/-!
# A store as time goes by

Objects are replaced by newer ones and never vanish, and no version is used twice:

  `m.Ages m'`

So as long as versions are counted (`m.IsNumbered`), an object that still has its version is still
the same.
-/

namespace LeaseQueue.Store.Memory

/-- No object is newer than the latest put. -/
def IsNumbered (m : Memory) : Prop := ∀ key e, m.entry? key = some e → e.version ≤ m.lastVersion

/-- Every object is as it was, or was stored since. -/
structure Ages (m m' : Memory) : Prop where
  lastVersion : m.lastVersion ≤ m'.lastVersion
  entry : ∀ key, m'.entry? key = m.entry? key ∨
    ∃ e, m'.entry? key = some e ∧ m.lastVersion < e.version ∧ e.version ≤ m'.lastVersion

/-- The one token was issued before the other. -/
def IsOlder (token token' : Token) : Prop :=
  ∃ v w : Nat, token = toString v ∧ token' = toString w ∧ v < w

/-- The one token was issued before the other, or they are the same. -/
def IsNotNewer (token token' : Token) : Prop :=
  ∃ v w : Nat, token = toString v ∧ token' = toString w ∧ v ≤ w

theorem IsOlder.ne {token token' : Token} (h : IsOlder token token') : token ≠ token' := by
  obtain ⟨v, w, rfl, rfl, hlt⟩ := h
  exact fun hsame => Nat.ne_of_lt hlt (toString_injective hsame)

variable {m m' m'' : Memory} {key : String} {e e' : Entry}

theorem Ages.of_eq (hentries : m'.entries = m.entries) (hlast : m'.lastVersion = m.lastVersion) :
    Ages m m' := by
  refine ⟨Nat.le_of_eq hlast.symm, fun key => .inl ?_⟩
  show m'.entries.lookup key = m.entries.lookup key
  rw [hentries]

theorem Ages.refl (m : Memory) : Ages m m := .of_eq rfl rfl

theorem Ages.trans (h : Ages m m') (h' : Ages m' m'') : Ages m m'' where
  lastVersion := Nat.le_trans h.lastVersion h'.lastVersion
  entry := by
    intro key
    have hle := h.lastVersion
    have hle' := h'.lastVersion
    rcases h'.entry key with hsame' | ⟨e, he, hnew, hcounted⟩
    · rw [hsame']
      rcases h.entry key with hsame | ⟨e, he, hnew, hcounted⟩
      · exact .inl hsame
      · exact .inr ⟨e, he, hnew, by omega⟩
    · exact .inr ⟨e, he, by omega, hcounted⟩

theorem ages_store (m : Memory) (key : String) (data : Bytes) : Ages m (m.store key data).2 where
  lastVersion := Nat.le_succ _
  entry := by
    intro k
    rw [entry?_store]
    split
    · exact .inr ⟨_, rfl, Nat.lt_succ_self _, Nat.le_refl _⟩
    · exact .inl rfl

theorem ages_finish (m : Memory) {a : Access} (p : Pending a) : Ages m (m.finish p).2 := by
  obtain ⟨call, failure⟩ := p
  cases a with
  | read =>
    cases call with
    | read key =>
      rw [(finish_read m key failure).1]
      exact .refl m
  | put =>
    rcases finish_put m call failure with ⟨cause, heq⟩ | ⟨-, heq⟩
    · rw [heq]
      exact .refl m
    · rw [heq]
      exact ages_store m call.key (payload call)

theorem IsNumbered.ages (h : m.IsNumbered) (hages : Ages m m') : m'.IsNumbered := by
  intro key e he
  rcases hages.entry key with hsame | ⟨e', he', -, hcounted⟩
  · exact Nat.le_trans (h key e (hsame.symm.trans he)) hages.lastVersion
  · obtain rfl := Option.some.inj (he'.symm.trans he)
    exact hcounted

/-- Objects never vanish. -/
theorem Ages.remains (h : Ages m m') (he : m.entry? key = some e) :
    ∃ e', m'.entry? key = some e' := by
  rcases h.entry key with hsame | ⟨e', he', -⟩
  · exact ⟨e, hsame.trans he⟩
  · exact ⟨e', he'⟩

/-- The object under a key is never replaced by an older one. -/
theorem Ages.version_le (h : Ages m m') (hnumbered : m.IsNumbered) (he : m.entry? key = some e)
    (he' : m'.entry? key = some e') : e.version ≤ e'.version := by
  rcases h.entry key with hsame | ⟨e'', he'', hnew, -⟩
  · rw [hsame, he] at he'
    obtain rfl := Option.some.inj he'
    exact Nat.le_refl _
  · obtain rfl := Option.some.inj (he''.symm.trans he')
    have hold := hnumbered key e he
    omega

/-- An object that has the same version is the same. -/
theorem Ages.eq_of_version (h : Ages m m') (hnumbered : m.IsNumbered) (he : m.entry? key = some e)
    (he' : m'.entry? key = some e') (hversion : e'.version = e.version) : e' = e := by
  rcases h.entry key with hsame | ⟨e'', he'', hnew, -⟩
  · rw [hsame, he] at he'
    exact (Option.some.inj he').symm
  · obtain rfl := Option.some.inj (he''.symm.trans he')
    have hold := hnumbered key e he
    omega

/-- Once it has been replaced, a version never comes back. -/
theorem Ages.version_lt (h : Ages m m') {v : Nat} (he : m.entry? key = some e) (hv : v < e.version)
    (hlast : v ≤ m.lastVersion) (he' : m'.entry? key = some e') : v < e'.version := by
  rcases h.entry key with hsame | ⟨e'', he'', hnew, -⟩
  · rw [hsame, he] at he'
    obtain rfl := Option.some.inj he'
    exact hv
  · obtain rfl := Option.some.inj (he''.symm.trans he')
    omega

/-- Once something has been stored under a key, the object there is another one for good. -/
theorem version_ne_of_store {data : Bytes} (hnumbered : m.IsNumbered)
    (hages : Ages (m.store key data).2 m') :
    (m'.entry? key).map Entry.version ≠ (m.entry? key).map Entry.version := by
  have hstored : Memory.entry? (m.store key data).2 key = some ⟨data, m.lastVersion + 1⟩ :=
    (entry?_store m key data key).trans (if_pos rfl)
  obtain ⟨e', he'⟩ := hages.remains hstored
  have hnew : m.lastVersion < e'.version :=
    hages.version_lt hstored (Nat.lt_succ_self _) (Nat.le_succ _) he'
  intro hsame
  rw [he', Option.map_some] at hsame
  obtain ⟨e, he, hversion⟩ := Option.map_eq_some_iff.1 hsame.symm
  have hold := hnumbered key e he
  omega

end LeaseQueue.Store.Memory
