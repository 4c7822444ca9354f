import LeaseQueue.Proofs.Json.Values
import LeaseQueue.Json.Format

/-!
# Lawful formats

A format takes values apart in two ways, as values and as text.  It is lawful at a value if both
come to the same:

  `f.ofJson v = .ok a → ReadAs f.read v a`

Formats that are put together from lawful ones are lawful, so that what a format makes of a text is
known from what it makes of the value.
-/

namespace LeaseQueue

open Json

namespace Format

/-- The text of `v` is read as the value `v` is, as far as the depth goes. -/
def LawfulAt {α : Type} (f : Format α) (v : Json) : Prop :=
  ∀ {a : α}, f.ofJson v = .ok a → ReadAs f.read v a

/-- The text of `v` alone is read as the value `v` is, unless it nests too deep. -/
theorem parse_render {α : Type} {f : Format α} {v : Json} {a : α} (h : f.LawfulAt v)
    (ha : f.ofJson v = .ok a) :
    f.parse v.render = if v.nesting ≤ maxNesting then .ok a else .error .malformed := by
  have hread := h ha maxNesting [] delimited_nil
  rw [List.append_nil] at hread
  unfold parse whole
  simp only [hread]
  by_cases hdepth : v.nesting ≤ maxNesting
  · rw [if_pos hdepth, if_pos hdepth]
    rfl
  · rw [if_neg hdepth, if_neg hdepth]

theorem readFlat_skipSpace {v : Json} (hv : v.Integral) (hflat : v.nesting = 0) {rest : Bytes}
    (hr : Delimited rest) : readFlat (skipSpace (render v ++ rest)) = .ok (v, rest) := by
  have hread := hv.readAs 0 rest hr
  obtain ⟨b, t, hb, hspace, -⟩ := hv.solid
  rw [hflat, if_pos (Nat.le_refl 0), hb, List.cons_append, Json.read, skipSpace_cons hspace]
    at hread
  rw [hb, List.cons_append, skipSpace_cons hspace]
  by_cases h : b = Ascii.leftBracket ∨ b = Ascii.leftBrace
  · simp only [h, if_true] at hread
    cases hread
  · simpa only [h, if_false] using hread

/-- `accept` refuses arrays and objects. -/
theorem scalar_lawfulAt {α : Type} {accept : Json → Except Mismatch α}
    (h : ∀ {v a}, accept v = .ok a → v.nesting = 0) {v : Json} (hv : v.Integral) :
    (scalar accept).LawfulAt v := by
  intro a ha depth rest hr
  replace ha : accept v = .ok a := ha
  have hflat := h ha
  rw [hflat, if_pos (Nat.zero_le _)]
  simp only [scalar, readFlat_skipSpace hv hflat hr, ha]

theorem text_lawfulAt {v : Json} (hv : v.Integral) : text.LawfulAt v := by
  refine scalar_lawfulAt (fun {v a} h => ?_) hv
  cases v <;> first | rfl | cases h

theorem integer_lawfulAt {α : Type} (name : String) (low high : Int) (ofInt : Int → α) {v : Json}
    (hv : v.Integral) : (integer name low high ofInt).LawfulAt v := by
  refine scalar_lawfulAt (fun {v a} h => ?_) hv
  cases v <;> first | rfl | cases h

theorem name_lawfulAt {α : Type} (names : List (String × α)) {v : Json} (hv : v.Integral) :
    (name names).LawfulAt v := by
  refine scalar_lawfulAt (fun {v a} h => ?_) hv
  cases v <;> first | rfl | cases h

theorem any_lawfulAt {v : Json} (hv : v.Integral) : any.LawfulAt v := by
  rintro _ ⟨⟩ depth rest hr
  show (Json.read depth (render v ++ rest)).map _ = _
  rw [hv.readAs depth rest hr]
  by_cases h : v.nesting ≤ depth
  · simp only [h, if_true, Except.map]
  · simp only [h, if_false, Except.map]

theorem head_ne {v : Json} (hv : v.Integral) (hnull : v ≠ .null) {b : UInt8} {t : Bytes}
    (hb : render v = b :: t) : b ≠ Bytes.ofChar 'n' := by
  cases hv with
  | null => exact absurd rfl hnull
  | bool c =>
    cases c <;>
    · rw [← (List.cons.inj hb).1]
      decide
  | int _ _ =>
    obtain ⟨c, u, hc, hn⟩ := head_ofInt _
    rw [← (List.cons.inj (hc.symm.trans hb)).1]
    exact (numeric_ne hn).2.2.2.2.1
  | str s =>
    rw [← (List.cons.inj hb).1]
    decide
  | arr _ =>
    rw [render_arr] at hb
    rw [← (List.cons.inj hb).1]
    decide
  | obj _ =>
    rw [render_obj] at hb
    rw [← (List.cons.inj hb).1]
    decide

theorem option_lawfulAt {α : Type} {inner : Format α} {v : Json} (hv : v.Integral)
    (h : inner.LawfulAt v) : (option inner).LawfulAt v := by
  intro a ha depth rest hr
  by_cases hnull : v = .null
  · subst hnull
    cases ha
    have hexp := expect_append (Bytes.ofChars ['u', 'l', 'l']) rest
    have hskip : skipSpace (render .null ++ rest) =
      Bytes.ofChar 'n' :: (Bytes.ofChars ['u', 'l', 'l'] ++ rest) := skipSpace_cons (by decide) _
    simp only [option, hskip, hexp, if_true, Except.map, nesting, Nat.zero_le]
  · obtain ⟨b, rfl, hb⟩ : ∃ b, a = some b ∧ inner.ofJson v = .ok b := by
      have hmap : (inner.ofJson v).map some = .ok a := by
        cases v with
        | null => exact absurd rfl hnull
        | _ => exact ha
      cases hi : inner.ofJson v with
      | error m => rw [hi] at hmap; cases hmap
      | ok b => rw [hi] at hmap; cases hmap; exact ⟨b, rfl, rfl⟩
    have hread := h hb depth rest hr
    obtain ⟨c, t, hc, hspace, -⟩ := hv.solid
    have hn := head_ne hv hnull hc
    rw [hc, List.cons_append] at hread ⊢
    simp only [option, skipSpace_cons hspace, hn, if_false, hread]
    by_cases hd : v.nesting ≤ depth
    · simp only [hd, if_true, Except.map]
    · simp only [hd, if_false, Except.map]

theorem inside_eq {α : Type} {reader : Nat → Reading α} {n : Nat} {x : Reading α}
    (h : ∀ depth, reader depth = if n ≤ depth then x else .error .malformed) (depth : Nat) :
    inside depth reader = if n + 1 ≤ depth then x else .error .malformed := by
  cases depth with
  | zero => rfl
  | succ depth => simp only [inside, h depth, Nat.add_le_add_iff_right]

theorem list_lawfulAt {α : Type} {inner : Format α} {vs : List Json}
    (hv : ∀ v ∈ vs, v.Integral) (h : ∀ v ∈ vs, inner.LawfulAt v) :
    (list inner).LawfulAt (.arr vs) := by
  intro as ha depth rest hr
  replace ha : vs.mapM inner.ofJson = .ok as := ha
  have hskip := skipSpace_cons (b := Ascii.leftBracket) (by decide) (itemsText vs ++ rest)
  rw [render_arr, List.cons_append]
  simp only [list, hskip, if_true]
  refine inside_eq (fun depth => ?_) depth
  have hread := readItems_itemsText depth hv (fun v hv b hb => h v hv hb) ha rest
  rw [hread]
  by_cases hd : nestingItems vs ≤ depth
  · simp only [hd, if_true, Except.map, List.reverse_reverse]
  · simp only [hd, if_false, Except.map]

theorem variant_lawfulAt {α : Type} (names : List (String × α)) (s : String) :
    (variant names).LawfulAt (.str s) := by
  intro a ha depth rest hr
  have hskip : skipSpace (render (.str s) ++ rest) = render (.str s) ++ rest :=
    skipSpace_cons (by decide) _
  simp only [variant, hskip]
  exact name_lawfulAt names (.str s) ha depth rest hr

end Format

/-! ## Records -/

/-- A field reads the text of `v` as it takes in the value `v`. -/
def Field.LawfulAt {σ : Type} (field : Field σ) (v : Json) : Prop :=
  ∀ {draft draft' : σ}, field.ofJson v draft = .ok draft' → ReadAs (field.read · · draft) v draft'

theorem Field.of_lawfulAt {σ α : Type} (name : String) {format : Format α} (droppable : Bool)
    (get : σ → Option α) (set : α → σ → σ) {v : Json} (h : format.LawfulAt v) :
    (Field.of name format droppable get set).LawfulAt v := by
  intro draft draft' hd depth rest hr
  obtain ⟨a, ha, rfl⟩ : ∃ a, format.ofJson v = .ok a ∧ set a draft = draft' := by
    cases ha : format.ofJson v with
    | error m => simp [Field.of, ha, Except.map] at hd
    | ok a => simp [Field.of, ha, Except.map] at hd; exact ⟨a, rfl, hd⟩
  have hread := h ha depth rest hr
  simp only [Field.of, hread]
  by_cases hd : v.nesting ≤ depth
  · simp only [hd, if_true, Except.map]
  · simp only [hd, if_false, Except.map]

namespace Record

variable {σ α : Type} {r : Record σ α}

/-- Takes in one member that a field has the name of. -/
def takeMember (r : Record σ α) (draft : σ) (m : String × Json) : Except Mismatch σ :=
  r.ofMembers draft [m]

theorem ofMembers_eq_foldlM (draft : σ) (ms : List (String × Json)) :
    r.ofMembers draft ms = ms.foldlM r.takeMember draft := by
  induction ms generalizing draft with
  | nil => rfl
  | cons m ms ih =>
    obtain ⟨key, v⟩ := m
    rw [List.foldlM_cons]
    simp only [takeMember, ofMembers]
    split
    · split
      · rfl
      · split
        · rfl
        · exact ih _
    · exact ih _

/-- A field has the name of the member, and is lawful at its value. -/
def Knows (r : Record σ α) (m : String × Json) : Prop :=
  ∃ field, r.field? m.1 = some field ∧ field.LawfulAt m.2

theorem takesAs {m : String × Json} (hm : r.Knows m) (depth : Nat) :
    TakesAs (r.readMember depth) r.takeMember depth m := by
  intro draft draft' ht rest hr
  obtain ⟨key, v⟩ := m
  obtain ⟨field, hf, hlawful⟩ := hm
  simp only at hf
  simp only [takeMember, ofMembers, hf] at ht
  cases hset : field.isSet draft with
  | true => simp [hset] at ht
  | false =>
    have hd : field.ofJson v draft = .ok draft' := by
      cases hd : field.ofJson v draft with
      | error e => simp [hset, hd] at ht
      | ok d => simpa [hset, hd] using ht
    have hread := hlawful hd depth rest hr
    simp only [readMember, hf, hset, Bool.false_eq_true, if_false, List.cons_append,
      afterColon_colon]
    exact hread

/-- None of the members is passed over. -/
theorem lawfulAt {ms : List (String × Json)} (hms : ∀ m ∈ ms, r.Knows m) :
    r.format.LawfulAt (.obj ms) := by
  intro a ha depth rest hr
  obtain ⟨draft, hdraft, hfinish⟩ : ∃ draft, r.ofMembers r.blank ms = .ok draft ∧
      r.finish draft = .ok a := by
    simp only [format, ofJson] at ha
    cases hd : r.ofMembers r.blank ms with
    | error e => simp [hd] at ha
    | ok draft => exact ⟨draft, rfl, by simpa [hd] using ha⟩
  rw [ofMembers_eq_foldlM] at hdraft
  have hskip := skipSpace_cons (b := Ascii.leftBrace) (by decide) (membersText ms ++ rest)
  rw [render_obj, List.cons_append]
  simp only [format, read, hskip, show Ascii.leftBrace ≠ Ascii.leftBracket by decide, if_true,
    if_false]
  refine Format.inside_eq (fun depth => ?_) depth
  rw [readMembers_membersText (fun m hm => takesAs (hms m hm) depth) hdraft rest]
  by_cases hd : nestingMembers ms ≤ depth
  · simp only [hd, if_true, finishReading, hfinish]
  · simp only [hd, if_false, finishReading]

end Record

end LeaseQueue
