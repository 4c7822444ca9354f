import LeaseQueue.Proofs.Json.Formats
import LeaseQueue.Proofs.Json.Readings

/-!
# Tagged values

The text of a tagged object is read as the object is, as far as the depth goes:

  `(∀ m ∈ members, t.Knows m) → t.format.LawfulAt (.obj members)`

Its parts are read as values first and taken in only then.  Nothing is gained by that detour: a
value that was read nests no deeper than its reader admits, so that what is made of it fits where it
would have fitted had it been read directly.

  `(∀ tag, Derives (t.variant tag) P) → t.format.Yields P`
-/

namespace LeaseQueue

open Json

/-! ## What is written -/

namespace Tagged

variable {τ α : Type} {t : Tagged τ α}

def takeMember (t : Tagged τ α) (draft : TaggedDraft τ) (m : String × Json) :
    Except Mismatch (TaggedDraft τ) :=
  t.ofMembers draft [m]

theorem ofMembers_eq_foldlM (draft : TaggedDraft τ) (ms : List (String × Json)) :
    t.ofMembers draft ms = ms.foldlM t.takeMember draft := by
  induction ms generalizing draft with
  | nil => rfl
  | cons m ms ih =>
    obtain ⟨key, v⟩ := m
    rw [List.foldlM_cons]
    simp only [takeMember, ofMembers]
    split
    · split
      · rfl
      · split
        · rfl
        · exact ih _
    · exact ih _

theorem ofMembers_of_ne (tag : Option τ) {ms : List (String × Json)} (h : ∀ m ∈ ms, m.1 ≠ t.key)
    (taken : List (String × Json)) :
    t.ofMembers ⟨tag, taken⟩ ms = .ok ⟨tag, ms.reverse ++ taken⟩ := by
  induction ms generalizing taken with
  | nil => rfl
  | cons m ms ih =>
    obtain ⟨hm, hms⟩ := List.forall_mem_cons.1 h
    rw [ofMembers, if_neg hm, ih hms, List.reverse_cons, List.append_assoc]
    rfl

/-- An object whose first member names the variant, and no other does. -/
theorem ofJson_obj {v : Json} {tag : τ} (hv : t.tag.ofJson v = .ok tag)
    {ms : List (String × Json)} (hms : ∀ m ∈ ms, m.1 ≠ t.key) :
    t.format.ofJson (.obj ((t.key, v) :: ms)) = t.variant tag (.obj ms) := by
  simp only [format, ofJson, ofMembers, if_true, Option.isSome_none, Bool.false_eq_true, if_false,
    hv, ofMembers_of_ne (some tag) hms, List.append_nil, List.reverse_reverse]

/-- The member names the variant, or it is a value that can be written and read. -/
def Knows (t : Tagged τ α) (m : String × Json) : Prop :=
  if m.1 = t.key then t.tag.LawfulAt m.2 else m.2.Integral

theorem takesAs {m : String × Json} (hm : t.Knows m) (depth : Nat) :
    TakesAs (t.readMember depth) t.takeMember depth m := by
  intro draft draft' ht rest hr
  obtain ⟨key, v⟩ := m
  simp only [takeMember, ofMembers] at ht
  simp only [Knows] at hm
  by_cases hkey : key = t.key
  · rw [if_pos hkey] at hm
    cases hset : draft.tag with
    | some _ => simp [hkey, hset] at ht
    | none =>
      cases htag : t.tag.ofJson v with
      | error e => simp [hkey, hset, htag] at ht
      | ok tag =>
        obtain rfl : { draft with tag := some tag } = draft' := by
          simpa [hkey, hset, htag] using ht
        have hread := hm htag depth rest hr
        simp only [readMember, hkey, if_true, hset, Option.isSome_none, Bool.false_eq_true,
          if_false, List.cons_append, afterColon_colon, hread]
        by_cases hd : v.nesting ≤ depth
        · simp only [hd, if_true, Except.map]
        · simp only [hd, if_false, Except.map]
  · rw [if_neg hkey] at hm
    obtain rfl : { draft with members := (key, v) :: draft.members } = draft' := by
      simpa [hkey] using ht
    have hread := hm.readAs depth rest hr
    simp only [readMember, hkey, if_false, List.cons_append, afterColon_colon, hread]
    by_cases hd : v.nesting ≤ depth
    · simp only [hd, if_true, Except.map]
    · simp only [hd, if_false, Except.map]

/-- A tagged object is read as a text as it is taken apart as a value. -/
theorem lawfulAt {ms : List (String × Json)} (hms : ∀ m ∈ ms, t.Knows m) :
    t.format.LawfulAt (.obj ms) := by
  intro a ha depth rest hr
  simp only [format, ofJson] at ha
  split at ha
  · cases ha
  · cases ha
  next tag members hdraft =>
    rw [ofMembers_eq_foldlM] at hdraft
    have hskip := skipSpace_cons (b := Ascii.leftBrace) (by decide) (membersText ms ++ rest)
    rw [render_obj, List.cons_append]
    simp only [format, read, hskip, show Ascii.leftBrace ≠ Ascii.leftBracket by decide, if_true,
      if_false]
    refine Format.inside_eq (fun depth => ?_) depth
    rw [readMembers_membersText (fun m hm => takesAs (hms m hm) depth) hdraft rest]
    by_cases hd : nestingMembers ms ≤ depth
    · simp only [hd, if_true, finish, ha]
    · simp only [hd, if_false]

end Tagged

/-! ## What is made of values -/

/-- All that is made of a value has this property, at any depth that suffices for the value. -/
def Derives {α : Type} (f : Json → Except Mismatch α) (P : Nat → α → Prop) : Prop :=
  ∀ {depth v a}, v.nesting ≤ depth → f v = .ok a → P depth a

namespace Format

theorem any_derives : Derives any.ofJson fun depth v => v.FitsIn depth := by
  rintro depth v _ hv ⟨⟩
  exact ⟨v.normalize_normalize, v.nesting_normalize_le.trans hv⟩

theorem list_derives {α : Type} {inner : Format α} {P : Nat → α → Prop}
    (h : Derives inner.ofJson P) :
    Derives (list inner).ofJson fun depth as => ∀ a ∈ as, P (depth - 1) a := by
  intro depth v as hv hof
  cases v with
  | arr items =>
    obtain ⟨depth, rfl⟩ := Nat.exists_eq_add_of_le' (Nat.le_of_add_left_le hv)
    replace hv := (nestingItems_le_iff _ _).1 (Nat.le_of_add_le_add_right hv)
    replace hof : items.mapM inner.ofJson = .ok as := hof
    induction items generalizing as with
    | nil => cases hof; exact List.forall_mem_nil _
    | cons v items ih =>
      obtain ⟨hone, hmore⟩ := List.forall_mem_cons.1 hv
      obtain ⟨a, as, ha, has, rfl⟩ := mapM_cons_eq_ok.1 hof
      exact List.forall_mem_cons.2 ⟨h hone ha, ih hmore has⟩
  | null | bool | num | str | obj => cases hof

end Format

theorem Field.exists_of_ofJson_eq_ok {σ α : Type} {name : String} {format : Format α}
    {droppable : Bool} {get : σ → Option α} {set : α → σ → σ} {v : Json} {draft draft' : σ}
    (h : (Field.of name format droppable get set).ofJson v draft = .ok draft') :
    ∃ a, format.ofJson v = .ok a ∧ draft' = set a draft := by
  obtain ⟨a, ha, rfl⟩ := exists_of_map_eq_ok h
  exact ⟨a, ha, rfl⟩

namespace Record

variable {σ α : Type} {r : Record σ α} {draft draft' : σ}

theorem ofMembers_induction {Q : σ → Prop} {R : Json → Prop}
    (hfield : ∀ field ∈ r.fields, ∀ v draft draft', Q draft → R v →
      field.ofJson v draft = .ok draft' → Q draft')
    {members : List (String × Json)} (hR : ∀ m ∈ members, R m.2) (hQ : Q draft)
    (h : r.ofMembers draft members = .ok draft') : Q draft' := by
  induction members generalizing draft with
  | nil =>
    cases h
    exact hQ
  | cons m members ih =>
    obtain ⟨key, v⟩ := m
    obtain ⟨hone, hmore⟩ := List.forall_mem_cons.1 hR
    unfold ofMembers at h
    split at h
    next field hfind =>
      split at h
      · cases h
      · split at h
        · cases h
        next hof =>
          exact ih hmore (hfield field (List.mem_of_find?_eq_some hfind) _ _ _ hQ hone hof) h
    · exact ih hmore hQ h

theorem ofItems_induction {Q : σ → Prop} {R : Json → Prop} {fields : List (Field σ)}
    (hfield : ∀ field ∈ fields, ∀ v draft draft', Q draft → R v →
      field.ofJson v draft = .ok draft' → Q draft')
    {index : Nat} {items rest : List Json} (hR : ∀ v ∈ items, R v) (hQ : Q draft)
    (h : r.ofItems fields index draft items = .ok (draft', rest)) : Q draft' := by
  induction fields generalizing index draft items with
  | nil =>
    cases h
    exact hQ
  | cons field fields ih =>
    obtain ⟨hone, hmore⟩ := List.forall_mem_cons.1 hfield
    cases items with
    | nil =>
      unfold ofItems at h
      split at h
      · exact ih hmore hR hQ h
      · cases h
    | cons v items =>
      obtain ⟨hv, hitems⟩ := List.forall_mem_cons.1 hR
      unfold ofItems at h
      split at h
      · cases h
      next hof => exact ih hmore hitems (hone _ _ _ hQ hv hof) h

/-- What the blank draft has, and every field keeps, the whole record has, whether it is an object
or an array. -/
theorem derives {Q : Nat → σ → Prop} {P : Nat → α → Prop} (hblank : ∀ n, Q n r.blank)
    (hfield : ∀ field ∈ r.fields, ∀ n v draft draft', Q n draft → v.nesting ≤ n →
      field.ofJson v draft = .ok draft' → Q n draft')
    (hfinish : ∀ n draft a, Q n draft → r.finish draft = .ok a → P n a) :
    Derives r.ofJson fun depth a => P (depth - 1) a := by
  intro depth v a hv hof
  cases v with
  | arr items =>
    obtain ⟨depth, rfl⟩ := Nat.exists_eq_add_of_le' (Nat.le_of_add_left_le hv)
    replace hv := (nestingItems_le_iff _ _).1 (Nat.le_of_add_le_add_right hv)
    simp only [ofJson] at hof
    split at hof
    · cases hof
    next hitems =>
      exact hfinish _ _ _
        (ofItems_induction (fun field hmem => hfield field hmem depth) hv (hblank _) hitems) hof
    · cases hof
  | obj members =>
    obtain ⟨depth, rfl⟩ := Nat.exists_eq_add_of_le' (Nat.le_of_add_left_le hv)
    replace hv := (nestingMembers_le_iff _ _).1 (Nat.le_of_add_le_add_right hv)
    simp only [ofJson] at hof
    split at hof
    · cases hof
    next hmembers =>
      exact hfinish _ _ _
        (ofMembers_induction (R := (·.nesting ≤ depth))
          (fun field hmem => hfield field hmem depth) hv (hblank _) hmembers) hof
  | null | bool | num | str => cases hof

end Record

/-! ## What tagged values yield -/

namespace Tagged

variable {τ α : Type} {t : Tagged τ α} {depth : Nat} {s rest : Bytes}

theorem exists_of_finish_eq_ok {tag : Option τ} {content : Json} {a : α}
    (h : t.finish tag content s = .ok (a, rest)) : ∃ tag, t.variant tag content = .ok a := by
  unfold finish at h
  split at h
  · cases h
  · split at h
    next hvariant =>
      cases h
      exact ⟨_, hvariant⟩
    · cases h

/-- All that is kept for later nests at most so deep. -/
theorem nesting_le_of_readMember {draft draft' : TaggedDraft τ} {key : String}
    (hdraft : ∀ m ∈ draft.members, m.2.nesting ≤ depth)
    (h : t.readMember depth draft key s = .ok (draft', rest)) :
    ∀ m ∈ draft'.members, m.2.nesting ≤ depth := by
  unfold readMember at h
  split at h
  · split at h
    · cases h
    · obtain ⟨_, _, heq⟩ := exists_of_map_eq_ok h
      cases heq
      exact hdraft
  · obtain ⟨_, hafter, heq⟩ := exists_of_map_eq_ok h
    obtain ⟨_, hread⟩ := exists_of_afterColon_eq_ok hafter
    cases heq
    exact List.forall_mem_cons.2 ⟨nesting_le_of_read hread, hdraft⟩

/-- What is made of an array that begins with a tag is made of the items after it. -/
theorem exists_of_readArray_eq_ok {a : α} (h : t.readArray depth s = .ok (a, rest)) :
    ∃ tag content, t.variant tag content = .ok a ∧ content.nesting ≤ depth + 1 := by
  unfold readArray at h
  split at h
  · cases h
  · obtain ⟨tag, hvariant⟩ := exists_of_finish_eq_ok h
    exact ⟨tag, .null, hvariant, Nat.zero_le _⟩
  · split at h
    · cases h
    · split at h
      · cases h
      next items _ hitems =>
        split at h
        · cases h
        · obtain ⟨tag, hvariant⟩ := exists_of_finish_eq_ok h
          have hall : ∀ v ∈ items, v.nesting ≤ depth := by
            refine foldItems_induction
              (P := fun items : List Json => ∀ v ∈ items, v.nesting ≤ depth)
              (fun acc s acc' s' hacc hitem => ?_) (List.forall_mem_nil _) hitems
            obtain ⟨_, hread, heq⟩ := exists_of_map_eq_ok hitem
            cases heq
            exact List.forall_mem_cons.2 ⟨nesting_le_of_read hread, hacc⟩
          refine ⟨tag, _, hvariant, ?_⟩
          rw [nesting, Nat.add_le_add_iff_right, nestingItems_le_iff]
          exact fun v hv => hall v (List.mem_reverse.1 hv)

/-- **The detour gains no depth**: what the variants make of values has the property at the depth of
the text that the values were read from. -/
theorem yields {P : Nat → α → Prop} (h : ∀ tag, Derives (t.variant tag) P) : t.format.Yields P := by
  intro depth s a rest hread
  simp only [format, read] at hread
  cases depth with
  | zero =>
    repeat' split at hread
    all_goals first | cases hread | exact absurd hread (Format.refuse_ne_ok _ _ _)
  | succ depth =>
    split at hread
    · cases hread
    · split at hread
      · obtain ⟨tag, content, hvariant, hnesting⟩ := exists_of_readArray_eq_ok hread
        exact h tag hnesting hvariant
      split at hread
      · simp only [Format.inside] at hread
        split at hread
        · cases hread
        next draft _ hmembers =>
          obtain ⟨tag, hvariant⟩ := exists_of_finish_eq_ok hread
          have hall := readMembers_induction
            (P := fun draft : TaggedDraft τ => ∀ m ∈ draft.members, m.2.nesting ≤ depth)
            (fun _ _ _ _ _ hdraft hmember => nesting_le_of_readMember hdraft hmember)
            (List.forall_mem_nil _) hmembers
          refine h tag ?_ hvariant
          rw [nesting, Nat.add_le_add_iff_right, nestingMembers_le_iff]
          exact fun m hm => hall m (List.mem_reverse.1 hm)
      · exact absurd hread (Format.refuse_ne_ok _ _ _)

end Tagged

end LeaseQueue
