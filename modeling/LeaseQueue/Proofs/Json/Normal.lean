import LeaseQueue.Json.Basic
import Mathlib.Data.String.Basic

/-!
# Values in normal form

Sorting the members of all objects does it once and for all, and makes a value no deeper:

  `v.normalize.normalize = v.normalize`
  `v.normalize.nesting ≤ v.nesting`
-/

namespace LeaseQueue.Json

/-- What holds of a value if it holds of its items or of the values of its members holds of all. -/
theorem induction {P : Json → Prop} (null : P .null) (bool : ∀ b, P (.bool b))
    (num : ∀ n, P (.num n)) (str : ∀ s, P (.str s))
    (arr : ∀ items, (∀ v ∈ items, P v) → P (.arr items))
    (obj : ∀ members, (∀ m ∈ members, P m.2) → P (.obj members)) (v : Json) : P v := by
  refine @Json.rec P (fun items => ∀ v ∈ items, P v) (fun members => ∀ m ∈ members, P m.2)
    (fun m => P m.2) null bool num str arr obj ?_ ?_ ?_ ?_ ?_ v
  · exact List.forall_mem_nil _
  · exact fun _ _ hv hrest => List.forall_mem_cons.2 ⟨hv, hrest⟩
  · exact List.forall_mem_nil _
  · exact fun _ _ hm hrest => List.forall_mem_cons.2 ⟨hm, hrest⟩
  · exact fun _ _ hv => hv

/-! ## Members in order -/

/-- The members stand in order of their keys, one for each key. -/
def Sorted (members : List (String × Json)) : Prop := members.Pairwise fun m m' => m.1 < m'.1

variable {key : String} {value : Json} {members : List (String × Json)}

theorem mem_of_mem_insertMember {m : String × Json} (h : m ∈ insertMember key value members) :
    m = (key, value) ∨ m ∈ members := by
  induction members with
  | nil => exact .inl (List.mem_singleton.1 h)
  | cons n members ih =>
    obtain ⟨k, v⟩ := n
    unfold insertMember at h
    split at h
    · exact List.mem_cons.1 h
    · split at h
      · rcases List.mem_cons.1 h with hnew | hold
        · exact .inl hnew
        · exact .inr (List.mem_cons_of_mem _ hold)
      · rcases List.mem_cons.1 h with rfl | hrest
        · exact .inr List.mem_cons_self
        · rcases ih hrest with hnew | hold
          · exact .inl hnew
          · exact .inr (List.mem_cons_of_mem _ hold)

theorem sorted_insertMember (h : Sorted members) : Sorted (insertMember key value members) := by
  induction members with
  | nil => exact List.pairwise_singleton _ _
  | cons n members ih =>
    obtain ⟨k, v⟩ := n
    obtain ⟨hfirst, hrest⟩ := List.pairwise_cons.1 h
    unfold insertMember
    split
    next hlt =>
      refine List.pairwise_cons.2 ⟨?_, h⟩
      exact List.forall_mem_cons.2 ⟨hlt, fun m hm => lt_trans hlt (hfirst m hm)⟩
    next hnot =>
      split
      next heq => exact List.pairwise_cons.2 ⟨fun m hm => heq ▸ hfirst m hm, hrest⟩
      next hne =>
        refine List.pairwise_cons.2 ⟨fun m hm => ?_, ih hrest⟩
        rcases mem_of_mem_insertMember hm with rfl | hm
        · exact lt_of_le_of_ne (not_lt.1 hnot) (Ne.symm hne)
        · exact hfirst m hm

/-- A member whose key comes after all others goes to the end. -/
theorem insertMember_of_lt (h : ∀ m ∈ members, m.1 < key) :
    insertMember key value members = members ++ [(key, value)] := by
  induction members with
  | nil => rfl
  | cons n members ih =>
    obtain ⟨k, v⟩ := n
    obtain ⟨hk, hrest⟩ := List.forall_mem_cons.1 h
    rw [insertMember, if_neg (lt_asymm hk), if_neg (ne_of_gt hk), ih hrest, List.cons_append]

/-! ## Normal forms -/

theorem normalizeItems_eq_map (items : List Json) : normalizeItems items = items.map normalize := by
  induction items with
  | nil => rfl
  | cons v items ih => rw [normalizeItems, ih, List.map_cons]

/-- What holds of all values that are inserted holds of all members that come of it, and they are
sorted. -/
theorem normalizeMembers_induction {P : Json → Prop} {sorted : List (String × Json)}
    (hsorted : Sorted sorted) (hP : ∀ m ∈ sorted, P m.2) (h : ∀ m ∈ members, P m.2.normalize) :
    Sorted (normalizeMembers members sorted) ∧ ∀ m ∈ normalizeMembers members sorted, P m.2 := by
  induction members generalizing sorted with
  | nil => exact ⟨hsorted, hP⟩
  | cons n members ih =>
    obtain ⟨k, v⟩ := n
    obtain ⟨hv, hrest⟩ := List.forall_mem_cons.1 h
    refine ih (sorted_insertMember hsorted) (fun m hm => ?_) hrest
    rcases mem_of_mem_insertMember hm with rfl | hm
    · exact hv
    · exact hP m hm

/-- Members that are sorted, and whose values are normal, stay as they are. -/
theorem normalizeMembers_of_sorted {sorted : List (String × Json)}
    (h : Sorted (sorted ++ members)) (hnormal : ∀ m ∈ members, m.2.normalize = m.2) :
    normalizeMembers members sorted = sorted ++ members := by
  induction members generalizing sorted with
  | nil => rw [normalizeMembers, List.append_nil]
  | cons n members ih =>
    obtain ⟨k, v⟩ := n
    obtain ⟨hv, hrest⟩ := List.forall_mem_cons.1 hnormal
    have hlast : ∀ m ∈ sorted, m.1 < k := fun m hm =>
      (List.pairwise_append.1 h).2.2 m hm (k, v) List.mem_cons_self
    have hv : v.normalize = v := hv
    rw [normalizeMembers, hv, insertMember_of_lt hlast, ih _ hrest, List.append_assoc,
      List.singleton_append]
    rw [List.append_assoc]
    exact h

theorem normalize_normalize (v : Json) : v.normalize.normalize = v.normalize := by
  induction v using Json.induction with
  | null | bool | num | str => rfl
  | arr items ih =>
    rw [normalize, normalize, normalizeItems_eq_map, normalizeItems_eq_map, List.map_map]
    exact congrArg Json.arr (List.map_congr_left ih)
  | obj members ih =>
    obtain ⟨hsorted, hnormal⟩ :=
      normalizeMembers_induction (P := fun v => v.normalize = v) .nil (List.forall_mem_nil _) ih
    rw [normalize, normalize, normalizeMembers_of_sorted hsorted hnormal, List.nil_append]

/-! ## Depth -/

theorem nestingItems_le_iff (vs : List Json) (n : Nat) :
    nestingItems vs ≤ n ↔ ∀ v ∈ vs, v.nesting ≤ n := by
  induction vs with
  | nil => simp [nestingItems]
  | cons v vs ih => rw [nestingItems, Nat.max_le, ih, List.forall_mem_cons]

theorem nestingMembers_le_iff (ms : List (String × Json)) (n : Nat) :
    nestingMembers ms ≤ n ↔ ∀ m ∈ ms, m.2.nesting ≤ n := by
  induction ms with
  | nil => simp [nestingMembers]
  | cons m ms ih => rw [nestingMembers, Nat.max_le, ih, List.forall_mem_cons]

theorem nesting_normalize_le (v : Json) : v.normalize.nesting ≤ v.nesting := by
  induction v using Json.induction with
  | null | bool | num | str => exact Nat.le_refl 0
  | arr items ih =>
    rw [normalize, nesting, nesting, Nat.add_le_add_iff_right, nestingItems_le_iff,
      normalizeItems_eq_map, List.forall_mem_map]
    exact fun v hv => (ih v hv).trans ((nestingItems_le_iff items _).1 le_rfl v hv)
  | obj members ih =>
    rw [normalize, nesting, nesting, Nat.add_le_add_iff_right, nestingMembers_le_iff]
    have hbound : ∀ m ∈ members, m.2.normalize.nesting ≤ nestingMembers members := fun m hm =>
      (ih m hm).trans ((nestingMembers_le_iff members _).1 le_rfl m hm)
    exact (normalizeMembers_induction (P := (·.nesting ≤ nestingMembers members)) .nil
      (List.forall_mem_nil _) hbound).2

end LeaseQueue.Json
