import LeaseQueue.Proofs.Store.Ages

/-!
# What an answer is worth later

By the time that somebody uses an answer the object may have been replaced.  But as long as it has
the version that the token in the answer says, it is what the answer told:

  `m.Tells call answer → m.Ages m' → m'.Tells call answer`

At first it is even the object that is there (`m.Shows call answer`).
-/

namespace LeaseQueue.Store.Memory

/-- As long as the object has the version of the token, its data are like this. -/
def Vouches (m : Memory) (key : String) (token : Token) (P : Bytes → Prop) : Prop :=
  ∃ v, token = toString v ∧ v ≤ m.lastVersion ∧
    ∀ e, m.entry? key = some e → e.version = v → P e.data

/-- An answer brings the data that were read, or the token of those that were stored. -/
def Tells (m : Memory) {a : Access} (call : Call a) (answer : Answer a) : Prop :=
  match a, call, answer with
  | .read, call, answer => ∀ object, answer = .ok (some object) →
    m.Vouches call.key object.token (· = object.data)
  | .put, call, answer => ∀ token, answer = .ok token →
    m.Vouches call.key token (· = payload call)

/-- What was read, or stored, is the object that is there. -/
def Shows (m : Memory) {a : Access} (call : Call a) (answer : Answer a) : Prop :=
  match a, call, answer with
  | .read, call, answer => ∀ object, answer = .ok (some object) →
    ∃ e, m.entry? call.key = some e ∧ object = e.toObject
  | .put, call, answer => ∀ token, answer = .ok token →
    ∃ e, m.entry? call.key = some e ∧ e.data = payload call ∧ token = toString e.version

variable {m m' : Memory} {key : String} {token : Token} {P Q : Bytes → Prop}

theorem Vouches.ages (h : m.Vouches key token P) (hages : Ages m m') : m'.Vouches key token P := by
  obtain ⟨v, htoken, hlast, hdata⟩ := h
  refine ⟨v, htoken, Nat.le_trans hlast hages.lastVersion, fun e he hversion => ?_⟩
  rcases hages.entry key with hsame | ⟨e', he', hnew, -⟩
  · exact hdata e (hsame.symm.trans he) hversion
  · obtain rfl := Option.some.inj (he'.symm.trans he)
    omega

theorem Vouches.imp (h : m.Vouches key token P) (himp : ∀ data, P data → Q data) :
    m.Vouches key token Q := by
  obtain ⟨v, htoken, hlast, hdata⟩ := h
  exact ⟨v, htoken, hlast, fun e he hversion => himp _ (hdata e he hversion)⟩

/-- A write is admitted only over what its token vouches for. -/
theorem Vouches.of_admits {data : Bytes} (h : m.Vouches key token P)
    (hadmits : m.Admits (.write key data token)) : ∃ e, m.entry? key = some e ∧ P e.data := by
  obtain ⟨v, rfl, -, hdata⟩ := h
  obtain ⟨e, he, hversion⟩ := hadmits
  exact ⟨e, he, hdata e he (eq_of_parseVersion? hversion)⟩

theorem vouches_of_entry (hnumbered : m.IsNumbered) {e : Entry} (he : m.entry? key = some e) :
    m.Vouches key (toString e.version) (· = e.data) := by
  refine ⟨e.version, rfl, hnumbered key e he, fun e' he' _ => ?_⟩
  obtain rfl := Option.some.inj (he'.symm.trans he)
  rfl

theorem vouches_store (m : Memory) (key : String) (data : Bytes) :
    (m.store key data).2.Vouches key (toString (m.lastVersion + 1)) (· = data) := by
  refine ⟨m.lastVersion + 1, rfl, Nat.le_refl _, fun e he _ => ?_⟩
  have hstored := (entry?_store m key data key).symm.trans he
  rw [if_pos rfl] at hstored
  cases hstored
  rfl

theorem tells_finish (hnumbered : m.IsNumbered) {a : Access} (call : Call a)
    (failure : Option Error) :
    (m.finish ⟨call, failure⟩).2.Tells call (m.finish ⟨call, failure⟩).1 := by
  cases a with
  | read =>
    cases call with
    | read key =>
      obtain ⟨hmemory, hread⟩ := finish_read m key failure
      rw [hmemory]
      intro object hobject
      obtain ⟨e, he, rfl⟩ := hread object hobject
      exact vouches_of_entry hnumbered he
  | put =>
    rcases finish_put m call failure with ⟨cause, heq⟩ | ⟨-, heq⟩
    · rw [heq]
      exact nofun
    · rw [heq]
      intro token htoken
      cases htoken
      exact vouches_store m call.key (payload call)

theorem shows_finish (m : Memory) {a : Access} (call : Call a) (failure : Option Error) :
    (m.finish ⟨call, failure⟩).2.Shows call (m.finish ⟨call, failure⟩).1 := by
  cases a with
  | read =>
    cases call with
    | read key =>
      obtain ⟨hmemory, hread⟩ := finish_read m key failure
      rw [hmemory]
      exact hread
  | put =>
    rcases finish_put m call failure with ⟨cause, heq⟩ | ⟨-, heq⟩
    · rw [heq]
      exact nofun
    · rw [heq]
      intro token htoken
      cases htoken
      exact ⟨_, (entry?_store m call.key (payload call) call.key).trans (if_pos rfl), rfl, rfl⟩

/-- What was shown goes on being there as long as no object under the key is replaced. -/
theorem Shows.of_remains {a : Access} {call : Call a} {answer : Answer a} (h : m.Shows call answer)
    (hremains : ∀ e, m.entry? call.key = some e → m'.entry? call.key = some e) :
    m'.Shows call answer := by
  cases a with
  | read =>
    intro object hobject
    obtain ⟨e, he, hdata⟩ := h object hobject
    exact ⟨e, hremains e he, hdata⟩
  | put =>
    intro token htoken
    obtain ⟨e, he, hdata⟩ := h token htoken
    exact ⟨e, hremains e he, hdata⟩

theorem Tells.ages {a : Access} {call : Call a} {answer : Answer a} (h : m.Tells call answer)
    (hages : Ages m m') : m'.Tells call answer := by
  cases a with
  | read => exact fun object hobject => Vouches.ages (h object hobject) hages
  | put => exact fun token htoken => Vouches.ages (h token htoken) hages

end LeaseQueue.Store.Memory
