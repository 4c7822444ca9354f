import LeaseQueue.Proofs.Store.Tokens

/-!
# What calls do to storage in memory

A call that has its effect either leaves all objects alone, or stores one under a version that no
object had before:

  `m.finish p = (answer, m)`  or  `m.finish p = m.store key data`

A write comes through only over the object whose version it expects, and a create only where there
is no object.
-/

namespace LeaseQueue.Store

/-- What is found in a list after an entry was put in the place of an earlier one, or at the end. -/
theorem lookup_set {α : Type} {key : String} {e : α}
    (set : List (String × α) → List (String × α)) (hnil : set [] = [(key, e)])
    (hcons : ∀ k x rest, set ((k, x) :: rest) =
      if k = key then (key, e) :: rest else (k, x) :: set rest)
    (k : String) (entries : List (String × α)) :
    (set entries).lookup k = if k = key then some e else entries.lookup k := by
  induction entries with
  | nil =>
    rw [hnil, List.lookup_cons]
    by_cases hk : k = key
    · rw [if_pos hk, beq_iff_eq.2 hk]
    · rw [if_neg hk, beq_false_of_ne hk]
  | cons entry entries ih =>
    obtain ⟨k', x⟩ := entry
    by_cases hkey : k' = key
    · subst hkey
      rw [hcons, if_pos rfl, List.lookup_cons, List.lookup_cons]
      by_cases hk : k = k'
      · rw [if_pos hk, beq_iff_eq.2 hk]
      · rw [if_neg hk, beq_false_of_ne hk]
    · rw [hcons, if_neg hkey, List.lookup_cons, List.lookup_cons, ih]
      by_cases hk : k = k'
      · subst hk
        simp only [beq_self_eq_true, if_neg hkey]
      · simp only [beq_false_of_ne hk]

namespace Memory

theorem lookup_setEntry (key k : String) (e : Entry) (entries : List (String × Entry)) :
    (setEntry key e entries).lookup k = if k = key then some e else entries.lookup k :=
  lookup_set (setEntry key e) rfl (fun _ _ _ => rfl) k entries

theorem entry?_store (m : Memory) (key : String) (data : Bytes) (k : String) :
    entry? (m.store key data).2 k =
      if k = key then some ⟨data, m.lastVersion + 1⟩ else m.entry? k :=
  lookup_setEntry key k ⟨data, m.lastVersion + 1⟩ m.entries

/-- What lets a put through. -/
def Admits (m : Memory) : Call .put → Prop
  | .write key _ expected => ∃ e, m.entry? key = some e ∧ parseVersion? expected = some e.version
  | .create key _ => m.entry? key = none

def payload : Call .put → Bytes
  | .write _ data _ => data
  | .create _ data => data

theorem finish_read (m : Memory) (key : String) (failure : Option Error) :
    (m.finish ⟨.read key, failure⟩).2 = m ∧
    ∀ object, (m.finish ⟨.read key, failure⟩).1 = .ok (some object) →
      ∃ e, m.entry? key = some e ∧ object = e.toObject := by
  cases failure with
  | some cause => exact ⟨rfl, fun object h => by cases h⟩
  | none =>
    refine ⟨rfl, fun object h => ?_⟩
    obtain ⟨e, he, hobject⟩ := Option.map_eq_some_iff.1 (Except.ok.inj h)
    exact ⟨e, he, hobject.symm⟩

theorem finish_put (m : Memory) (call : Call .put) (failure : Option Error) :
    (∃ cause, m.finish ⟨call, failure⟩ = (.error cause, m)) ∨
    m.Admits call ∧ m.finish ⟨call, failure⟩ = m.store call.key (payload call) := by
  cases failure with
  | some cause => exact .inl ⟨cause, rfl⟩
  | none =>
    cases call with
    | write key data expected =>
      simp only [finish, serve]
      split
      next hnone => exact .inl ⟨_, rfl⟩
      next e he =>
        split
        next hversion => exact .inr ⟨⟨e, he, hversion⟩, rfl⟩
        · exact .inl ⟨_, rfl⟩
    | create key data =>
      simp only [finish, serve]
      split
      next e he => exact .inl ⟨_, rfl⟩
      next hnone => exact .inr ⟨hnone, rfl⟩

/-- A put that is admitted and not doomed comes through. -/
theorem finish_of_admits {m : Memory} {call : Call .put} (h : m.Admits call) :
    m.finish ⟨call, none⟩ = m.store call.key (payload call) := by
  cases call with
  | write key data expected =>
    obtain ⟨e, he, hversion⟩ := h
    simp only [finish, serve, he, if_pos hversion]
    rfl
  | create key data =>
    have hnone : m.entry? key = none := h
    simp only [finish, serve, hnone]
    rfl

end Memory

end LeaseQueue.Store
