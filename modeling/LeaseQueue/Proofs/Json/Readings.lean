import LeaseQueue.Proofs.Json.Normal
import LeaseQueue.Json.Format

/-!
# What comes of a reading

Whatever the text is, what is read from it has properties of its own: a value nests no deeper than
the reader admits, and one that is read in full has its members sorted.

  `Json.read depth s = .ok (v, rest) → v.nesting ≤ depth`
  `Format.any.Yields fun depth v => v.FitsIn depth`

What every step of a reading keeps the whole of it keeps, so that what a record yields is known from
what its fields yield.
-/

namespace LeaseQueue

theorem exists_of_map_eq_ok {ε α β : Type} {x : Except ε α} {f : α → β} {b : β}
    (h : x.map f = .ok b) : ∃ a, x = .ok a ∧ f a = b := by
  cases x with
  | error e => cases h
  | ok a => exact ⟨a, rfl, Except.ok.inj h⟩

namespace Json

/-! ## Row by row -/

section

variable {σ : Type} {P : σ → Prop} {acc acc' : σ} {s rest : Bytes}

theorem foldItems_induction {item : σ → Bytes → Reading σ}
    (step : ∀ acc s acc' s', P acc → item acc s = .ok (acc', s') → P acc') {n : Nat} {first : Bool}
    (hacc : P acc) (h : foldItems item n first acc s = .ok (acc', rest)) : P acc' := by
  induction n generalizing first acc s with
  | zero => cases h
  | succ n ih =>
    unfold foldItems at h
    split at h
    · cases h
    · cases h
      exact hacc
    · split at h
      · cases h
      next hitem => exact ih (step _ _ _ _ hacc hitem) h

theorem foldMembers_induction {member : σ → String → Bytes → Reading σ}
    (step : ∀ acc key s acc' s', P acc → member acc key s = .ok (acc', s') → P acc') {n : Nat}
    {first : Bool} (hacc : P acc) (h : foldMembers member n first acc s = .ok (acc', rest)) :
    P acc' := by
  induction n generalizing first acc s with
  | zero => cases h
  | succ n ih =>
    unfold foldMembers at h
    split at h
    · cases h
    · cases h
      exact hacc
    · split at h
      · cases h
      next hmember => exact ih (step _ _ _ _ _ hacc hmember) h

theorem readItems_induction {item : σ → Bytes → Reading σ}
    (step : ∀ acc s acc' s', P acc → item acc s = .ok (acc', s') → P acc') (hacc : P acc)
    (h : readItems item acc s = .ok (acc', rest)) : P acc' := by
  simp only [readItems, bind, Except.bind] at h
  split at h
  · cases h
  next hfold =>
    split at h
    · cases h
    · cases h
      exact foldItems_induction step hacc hfold

theorem readMembers_induction {member : σ → String → Bytes → Reading σ}
    (step : ∀ acc key s acc' s', P acc → member acc key s = .ok (acc', s') → P acc') (hacc : P acc)
    (h : readMembers member acc s = .ok (acc', rest)) : P acc' := by
  simp only [readMembers, bind, Except.bind] at h
  split at h
  · cases h
  next hfold =>
    split at h
    · cases h
    · cases h
      exact foldMembers_induction step hacc hfold

theorem exists_of_afterColon_eq_ok {α : Type} {value : Bytes → Reading α} {a : α}
    (h : afterColon value s = .ok (a, rest)) : ∃ s', value s' = .ok (a, rest) := by
  unfold afterColon at h
  split at h
  · cases h
  · exact ⟨_, h⟩

end

/-! ## Depth -/

theorem nesting_of_readFlat {b : UInt8} {s rest : Bytes} {v : Json} (harr : b ≠ Ascii.leftBracket)
    (hobj : b ≠ Ascii.leftBrace) (h : readFlat (b :: s) = .ok (v, rest)) : v.nesting = 0 := by
  simp only [readFlat, harr, hobj, if_false] at h
  iterate 5
    split at h
    · obtain ⟨_, _, hv⟩ := exists_of_map_eq_ok h
      cases hv
      rfl
  cases h

/-- No value that is read is deeper than the reader admits. -/
theorem nesting_le_of_read {depth : Nat} {s rest : Bytes} {v : Json}
    (h : read depth s = .ok (v, rest)) : v.nesting ≤ depth := by
  induction depth generalizing s v rest with
  | zero =>
    unfold read at h
    split at h
    · cases h
    · split at h
      · cases h
      next hflat =>
        rw [not_or] at hflat
        exact Nat.le_of_eq (nesting_of_readFlat hflat.1 hflat.2 h)
  | succ depth ih =>
    unfold read at h
    split at h
    · cases h
    · split at h
      · obtain ⟨⟨items, _⟩, hitems, hv⟩ := exists_of_map_eq_ok h
        cases hv
        have hall : ∀ v ∈ items, v.nesting ≤ depth := by
          refine readItems_induction (P := fun items : List Json => ∀ v ∈ items, v.nesting ≤ depth)
            (fun acc s acc' s' hacc hitem => ?_) (List.forall_mem_nil _) hitems
          obtain ⟨_, hread, heq⟩ := exists_of_map_eq_ok hitem
          cases heq
          exact List.forall_mem_cons.2 ⟨ih hread, hacc⟩
        rw [nesting, Nat.add_le_add_iff_right, nestingItems_le_iff]
        exact fun v hv => hall v (List.mem_reverse.1 hv)
      split at h
      · obtain ⟨⟨members, _⟩, hmembers, hv⟩ := exists_of_map_eq_ok h
        cases hv
        have hall : ∀ m ∈ members, m.2.nesting ≤ depth := by
          refine readMembers_induction
            (P := fun members : List (String × Json) => ∀ m ∈ members, m.2.nesting ≤ depth)
            (fun acc key s acc' s' hacc hmember => ?_) (List.forall_mem_nil _) hmembers
          obtain ⟨_, hafter, heq⟩ := exists_of_map_eq_ok hmember
          obtain ⟨_, hread⟩ := exists_of_afterColon_eq_ok hafter
          cases heq
          exact List.forall_mem_cons.2 ⟨ih hread, hacc⟩
        rw [nesting, Nat.add_le_add_iff_right, nestingMembers_le_iff]
        exact fun m hm => hall m (List.mem_reverse.1 hm)
      next harr hobj =>
        exact (Nat.le_of_eq (nesting_of_readFlat harr hobj h)).trans (Nat.zero_le _)

/-- A value in normal form that nests at most so deep. -/
def FitsIn (v : Json) (depth : Nat) : Prop := v.normalize = v ∧ v.nesting ≤ depth

theorem fitsIn_null (depth : Nat) : Json.null.FitsIn depth := ⟨rfl, Nat.zero_le depth⟩

end Json

/-! ## What formats yield -/

namespace Format

/-- All that a format reads has this property, at the depth that it is given. -/
def Yields {α : Type} (f : Format α) (P : Nat → α → Prop) : Prop :=
  ∀ {depth s a rest}, f.read depth s = .ok (a, rest) → P depth a

/-- What is read of a whole text has what is read at the depth of whole texts. -/
theorem Yields.of_parse {α : Type} {f : Format α} {P : Nat → α → Prop} (h : f.Yields P) {s : Bytes}
    {a : α} (hparse : f.parse s = .ok a) : P Json.maxNesting a := by
  unfold parse Json.whole at hparse
  split at hparse
  · cases hparse
  next hread =>
    split at hparse
    · cases hparse
      exact h hread
    · cases hparse

theorem any_yields : any.Yields fun depth v => v.FitsIn depth := by
  intro depth s v rest h
  obtain ⟨⟨w, _⟩, hread, heq⟩ := exists_of_map_eq_ok h
  cases heq
  exact ⟨w.normalize_normalize, w.nesting_normalize_le.trans (Json.nesting_le_of_read hread)⟩

theorem exists_of_inside_eq_ok {α : Type} {depth : Nat} {reader : Nat → Reading α}
    {x : α × Bytes} (h : inside depth reader = .ok x) : reader (depth - 1) = .ok x := by
  cases depth with
  | zero => cases h
  | succ depth => exact h

theorem refuse_ne_ok {α : Type} (expected : String) (s : Bytes) (x : α × Bytes) :
    refuse expected s ≠ .ok x := by
  unfold refuse
  split <;> exact nofun

theorem list_yields {α : Type} {inner : Format α} {P : Nat → α → Prop} (h : inner.Yields P) :
    (list inner).Yields fun depth as => ∀ a ∈ as, P (depth - 1) a := by
  intro depth s as rest hread
  simp only [list] at hread
  split at hread
  · cases hread
  · split at hread
    · obtain ⟨⟨items, _⟩, hitems, heq⟩ := exists_of_map_eq_ok (exists_of_inside_eq_ok hread)
      cases heq
      have hall : ∀ a ∈ items, P (depth - 1) a := by
        refine Json.readItems_induction (P := fun items : List α => ∀ a ∈ items, P (depth - 1) a)
          (fun acc s acc' s' hacc hitem => ?_) (List.forall_mem_nil _) hitems
        obtain ⟨_, hinner, heq⟩ := exists_of_map_eq_ok hitem
        cases heq
        exact List.forall_mem_cons.2 ⟨h hinner, hacc⟩
      exact fun a ha => hall a (List.mem_reverse.1 ha)
    · exact absurd hread (refuse_ne_ok _ _ _)

end Format

/-! ## What records yield -/

theorem Field.exists_of_read_eq_ok {σ α : Type} {name : String} {format : Format α}
    {droppable : Bool} {get : σ → Option α} {set : α → σ → σ} {depth : Nat} {s rest : Bytes}
    {draft draft' : σ}
    (h : (Field.of name format droppable get set).read depth s draft = .ok (draft', rest)) :
    ∃ a, format.read depth s = .ok (a, rest) ∧ draft' = set a draft := by
  obtain ⟨⟨a, _⟩, hread, heq⟩ := exists_of_map_eq_ok h
  cases heq
  exact ⟨a, hread, rfl⟩

namespace Record

variable {σ α : Type} {r : Record σ α} {depth : Nat} {s rest : Bytes} {draft draft' : σ}

/-- A member is passed over, or it fills a field that is not set. -/
theorem readMember_induction {Q : σ → Prop}
    (hfield : ∀ field ∈ r.fields, ∀ s draft draft' rest, Q draft → field.isSet draft = false →
      field.read depth s draft = .ok (draft', rest) → Q draft')
    {key : String} (hQ : Q draft) (h : r.readMember depth draft key s = .ok (draft', rest)) :
    Q draft' := by
  unfold readMember at h
  split at h
  next field hfind =>
    split at h
    · cases h
    next hset =>
      obtain ⟨s', hread⟩ := Json.exists_of_afterColon_eq_ok h
      exact hfield field (List.mem_of_find?_eq_some hfind) _ _ _ _ hQ (Bool.not_eq_true _ ▸ hset)
        hread
  · obtain ⟨s', hskip⟩ := Json.exists_of_afterColon_eq_ok h
    obtain ⟨_, _, heq⟩ := exists_of_map_eq_ok hskip
    cases heq
    exact hQ

theorem readPositions_induction {Q : σ → Prop} {fields : List (Field σ)}
    (hfield : ∀ field ∈ fields, ∀ s draft draft' rest, Q draft →
      field.read depth s draft = .ok (draft', rest) → Q draft')
    {index : Nat} {first : Bool} (hQ : Q draft)
    (h : r.readPositions depth fields index first draft s = .ok (draft', rest)) : Q draft' := by
  induction fields generalizing index first draft s with
  | nil =>
    cases h
    exact hQ
  | cons field fields ih =>
    obtain ⟨hone, hmore⟩ := List.forall_mem_cons.1 hfield
    unfold readPositions at h
    split at h
    · cases h
    · split at h
      · cases h
      next hread => exact ih hmore (hone _ _ _ _ hQ hread) h
    · split at h
      · exact ih hmore hQ h
      · cases h

theorem exists_of_finishReading_eq_ok {reading : Reading σ} {a : α}
    (h : r.finishReading reading = .ok (a, rest)) :
    ∃ draft rest', reading = .ok (draft, rest') ∧ r.finish draft = .ok a := by
  unfold finishReading at h
  split at h
  · cases h
  · split at h
    next hfinish =>
      cases h
      exact ⟨_, _, rfl, hfinish⟩
    · cases h

/-- What the blank draft has, and every field keeps, the whole record has, whether it is written as
an object or as an array. -/
theorem yields {Q : Nat → σ → Prop} {P : Nat → α → Prop} (hblank : ∀ n, Q n r.blank)
    (hfield : ∀ field ∈ r.fields, ∀ n s draft draft' rest, Q n draft →
      field.read n s draft = .ok (draft', rest) → Q n draft')
    (hfinish : ∀ n draft a, Q n draft → r.finish draft = .ok a → P n a) :
    r.format.Yields fun depth a => P (depth - 1) a := by
  intro depth s a rest h
  simp only [format, read] at h
  split at h
  · cases h
  · split at h
    · replace h := Format.exists_of_inside_eq_ok h
      split at h
      · cases h
      next draft s' hpositions =>
        obtain ⟨draft', _, hmark, hdraft⟩ := exists_of_finishReading_eq_ok h
        obtain ⟨_, _, heq⟩ := exists_of_map_eq_ok hmark
        cases heq
        refine hfinish _ _ _ ?_ hdraft
        exact readPositions_induction (fun field hmem => hfield field hmem _) (hblank _) hpositions
    split at h
    · obtain ⟨draft, _, hmembers, hdraft⟩ :=
        exists_of_finishReading_eq_ok (Format.exists_of_inside_eq_ok h)
      refine hfinish _ _ _ ?_ hdraft
      refine Json.readMembers_induction (fun _ _ _ _ _ hQ hmember => ?_) (hblank _) hmembers
      exact readMember_induction (fun field hmem s draft draft' rest hQ _ =>
        hfield field hmem _ s draft draft' rest hQ) hQ hmember
    · exact absurd h (Format.refuse_ne_ok _ _ _)

end Record

end LeaseQueue
