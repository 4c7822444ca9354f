import LeaseQueue.Proofs.Json.Scalars

/-!
# Values that are written and read

The text of a value is read as that value, or refused because it nests too deep:

  `read depth (render v ++ rest) = if v.nesting ≤ depth then .ok (v, rest) else .error .malformed`

The lemmas on arrays and objects do not say what their items and members are read as, so that they
serve for readers of other things than values too.
-/

namespace LeaseQueue.Json

/-- Every number in the value is an integer of 64 bits. -/
inductive Integral : Json → Prop where
  | null : Integral .null
  | bool (b : Bool) : Integral (.bool b)
  | int {i : Int} (low : -0x8000000000000000 ≤ i) (high : i < UInt64.size) :
      Integral (.num (.int i))
  | str (s : String) : Integral (.str s)
  | arr {items : List Json} (each : ∀ v ∈ items, Integral v) : Integral (.arr items)
  | obj {members : List (String × Json)} (each : ∀ m ∈ members, Integral m.2) :
      Integral (.obj members)

/-! ## What follows a value -/

/-- A value inside an array or an object, or the whole text, ends here. -/
def Delimited (rest : Bytes) : Prop :=
  ∀ b t, rest = b :: t → b = Ascii.comma ∨ b = Ascii.rightBracket ∨ b = Ascii.rightBrace

theorem delimited_nil : Delimited [] := by
  intro b t h
  cases h

theorem delimited_cons {b : UInt8} (t : Bytes)
    (h : b = Ascii.comma ∨ b = Ascii.rightBracket ∨ b = Ascii.rightBrace) : Delimited (b :: t) := by
  intro c u hc
  rw [← (List.cons.inj hc).1]
  exact h

theorem Delimited.endsNumber {rest : Bytes} (h : Delimited rest) : EndsNumber rest := by
  intro b t hb
  rcases h b t hb with rfl | rfl | rfl <;> decide

/-- The text of `v` is read as `a` if the depth suffices for it. -/
def ReadAs {α : Type} (reader : Nat → Bytes → Reading α) (v : Json) (a : α) : Prop :=
  ∀ (depth : Nat) (rest : Bytes), Delimited rest → reader depth (render v ++ rest) =
    if v.nesting ≤ depth then .ok (a, rest) else .error .malformed

theorem skipSpace_cons {b : UInt8} (hb : Ascii.isSpace b = false) (s : Bytes) :
    skipSpace (b :: s) = b :: s := by
  rw [skipSpace, List.dropWhile_cons_of_neg (by simp [hb])]

/-- A text begins with an octet that is neither a blank nor the end of an array. -/
def Solid (s : Bytes) : Prop :=
  ∃ b t, s = b :: t ∧ Ascii.isSpace b = false ∧ b ≠ Ascii.rightBracket

/-- The first octet of a number tells it from everything else. -/
theorem numeric_ne {b : UInt8} (h : b = Ascii.minus ∨ Bytes.isDigit b = true) :
    Ascii.isSpace b = false ∧ b ≠ Ascii.rightBracket ∧ b ≠ Ascii.leftBracket ∧
      b ≠ Ascii.leftBrace ∧ b ≠ Bytes.ofChar 'n' ∧ b ≠ Bytes.ofChar 't' ∧ b ≠ Bytes.ofChar 'f' := by
  have hall : ∀ n < 256, UInt8.ofNat n = Ascii.minus ∨ Bytes.isDigit (UInt8.ofNat n) = true →
      Ascii.isSpace (UInt8.ofNat n) = false ∧ UInt8.ofNat n ≠ Ascii.rightBracket ∧
        UInt8.ofNat n ≠ Ascii.leftBracket ∧ UInt8.ofNat n ≠ Ascii.leftBrace ∧
        UInt8.ofNat n ≠ Bytes.ofChar 'n' ∧ UInt8.ofNat n ≠ Bytes.ofChar 't' ∧
        UInt8.ofNat n ≠ Bytes.ofChar 'f' := by decide +kernel
  simpa using hall b.toNat b.toNat_lt (by simpa using h)

theorem solid_ofInt (i : Int) : Solid (Bytes.ofInt i) := by
  obtain ⟨b, t, hb, hn⟩ := head_ofInt i
  exact ⟨b, t, hb, (numeric_ne hn).1, (numeric_ne hn).2.1⟩

theorem Integral.solid {v : Json} (h : v.Integral) : Solid (render v) := by
  cases h with
  | null => exact ⟨_, _, rfl, by decide, by decide⟩
  | bool b => cases b <;> exact ⟨_, _, rfl, by decide, by decide⟩
  | int _ _ => exact solid_ofInt _
  | str s => exact ⟨_, _, rfl, by decide, by decide⟩
  | @arr items _ => cases items <;> exact ⟨_, _, rfl, by decide, by decide⟩
  | @obj members _ =>
    cases members <;> exact ⟨_, _, by simp only [render]; rfl, by decide, by decide⟩

/-! ## Arrays -/

/-- The items of an array and its closing bracket. -/
def itemsText : List Json → Bytes
  | [] => [Ascii.rightBracket]
  | v :: rest => render v ++ renderItems rest

theorem render_arr (items : List Json) :
    render (.arr items) = Ascii.leftBracket :: itemsText items := by
  cases items <;> rfl

theorem delimited_renderItems (items : List Json) (rest : Bytes) :
    Delimited (renderItems items ++ rest) := by
  cases items with
  | nil => exact delimited_cons _ (by decide)
  | cons v items =>
    rw [renderItems, List.append_assoc]
    exact delimited_cons _ (by decide)

theorem nextItem_of_solid {s : Bytes} (h : Solid s) (rest : Bytes) :
    nextItem true (s ++ rest) = .ok (true, s ++ rest) ∧
      nextItem false (Ascii.comma :: (s ++ rest)) = .ok (true, s ++ rest) := by
  obtain ⟨b, t, rfl, hb, hne⟩ := h
  have hskip := skipSpace_cons hb (t ++ rest)
  have hcomma : skipSpace (Ascii.comma :: (b :: (t ++ rest))) =
    Ascii.comma :: (b :: (t ++ rest)) := skipSpace_cons (by decide) _
  simp only [List.cons_append, nextItem, hskip, hcomma, hne, if_false, if_true,
    show Ascii.comma ≠ Ascii.rightBracket by decide, Bool.false_eq_true, and_self]

theorem nextItem_end (first : Bool) (rest : Bytes) :
    nextItem first (Ascii.rightBracket :: rest) = .ok (false, Ascii.rightBracket :: rest) := by
  have hskip : skipSpace (Ascii.rightBracket :: rest) = Ascii.rightBracket :: rest :=
    skipSpace_cons (by decide) _
  simp only [nextItem, hskip, if_true]

theorem foldItems_end {σ : Type} (item : σ → Bytes → Reading σ) (n : Nat) (first : Bool) (acc : σ)
    (rest : Bytes) : foldItems item (n + 1) first acc (Ascii.rightBracket :: rest) =
      .ok (acc, Ascii.rightBracket :: rest) := by
  rw [foldItems, nextItem_end]

theorem mapM_cons_eq_ok {α β ε : Type} {f : α → Except ε β} {a : α} {as : List α} {bs : List β} :
    (a :: as).mapM f = .ok bs ↔ ∃ b cs, f a = .ok b ∧ as.mapM f = .ok cs ∧ bs = b :: cs := by
  rw [List.mapM_cons]
  cases ha : f a with
  | error e => simp [bind, Except.bind]
  | ok b =>
    cases has : as.mapM f with
    | error e => simp [bind, Except.bind]
    | ok cs => simp [bind, Except.bind, pure, Except.pure, eq_comm]

theorem within_max {α : Type} {a b d : Nat} (x y : α) :
    (if a ≤ d then if b ≤ d then x else y else y) = if max a b ≤ d then x else y := by
  by_cases ha : a ≤ d
  · simp only [Nat.max_le, ha, true_and, if_true]
  · rw [if_neg ha, if_neg fun h => ha (Nat.max_le.1 h).1]

section
variable {β : Type} {reader : Nat → Bytes → Reading β} {out : Json → Except Mismatch β}

/-- One round: the item is read, or the depth does not suffice for it. -/
theorem foldItems_item {depth : Nat} {v : Json} {b : β} (hr : ReadAs reader v b) {s tail : Bytes}
    {first : Bool} (hnext : nextItem first s = .ok (true, render v ++ tail))
    (htail : Delimited tail) (n : Nat) (acc : List β) :
    foldItems (fun items s => (reader depth s).map fun (v, s) => (v :: items, s)) (n + 1) first acc
      s =
      if v.nesting ≤ depth then
        foldItems (fun items s => (reader depth s).map fun (v, s) => (v :: items, s)) n false
          (b :: acc) tail
      else .error .malformed := by
  rw [foldItems, hnext]
  simp only [hr depth tail htail]
  by_cases h : v.nesting ≤ depth
  · simp only [h, if_true, Except.map]
  · simp only [h, if_false, Except.map]

/-- The items after the first. -/
theorem foldItems_renderItems (depth : Nat) {vs : List Json} {bs : List β}
    (hv : ∀ v ∈ vs, v.Integral) (hr : ∀ v ∈ vs, ∀ b, out v = .ok b → ReadAs reader v b)
    (hb : vs.mapM out = .ok bs) (n : Nat) (hn : vs.length < n) (acc : List β) (rest : Bytes) :
    foldItems (fun items s => (reader depth s).map fun (v, s) => (v :: items, s)) n false acc
        (renderItems vs ++ rest) =
      if nestingItems vs ≤ depth then .ok (bs.reverse ++ acc, Ascii.rightBracket :: rest)
      else .error .malformed := by
  obtain ⟨n, rfl⟩ : ∃ m, n = m + 1 := ⟨n - 1, by omega⟩
  induction vs generalizing n bs acc with
  | nil =>
    rw [show bs = [] by simpa [pure, Except.pure] using hb.symm]
    exact foldItems_end _ _ _ _ _
  | cons v vs ih =>
    obtain ⟨b, cs, hvb, hcs, rfl⟩ := mapM_cons_eq_ok.1 hb
    obtain ⟨n, rfl⟩ : ∃ m, n = m + 1 := ⟨n - 1, by simp at hn; omega⟩
    have hnext := (nextItem_of_solid (hv v List.mem_cons_self).solid (renderItems vs ++ rest)).2
    rw [renderItems, List.append_assoc, List.cons_append,
      foldItems_item (hr v List.mem_cons_self b hvb) hnext (delimited_renderItems vs rest),
      ih (fun w hw => hv w (List.mem_cons_of_mem _ hw))
        (fun w hw => hr w (List.mem_cons_of_mem _ hw)) hcs _ n (by simpa using hn), within_max,
      nestingItems]
    simp

theorem length_le_renderItems (vs : List Json) : vs.length < (renderItems vs).length := by
  induction vs with
  | nil => simp [renderItems]
  | cons v vs ih => simp only [renderItems, List.length_cons, List.length_append]; omega

theorem readItems_itemsText (depth : Nat) {vs : List Json} {bs : List β}
    (hv : ∀ v ∈ vs, v.Integral) (hr : ∀ v ∈ vs, ∀ b, out v = .ok b → ReadAs reader v b)
    (hb : vs.mapM out = .ok bs) (rest : Bytes) :
    readItems (fun items s => (reader depth s).map fun (v, s) => (v :: items, s)) []
        (itemsText vs ++ rest) =
      if nestingItems vs ≤ depth then .ok (bs.reverse, rest) else .error .malformed := by
  have hmark : mark Ascii.rightBracket (Ascii.rightBracket :: rest) = .ok rest := by
    rw [mark, skipSpace_cons (by decide)]
    simp [expect]
  have hfold : foldItems (fun items s => (reader depth s).map fun (v, s) => (v :: items, s))
      ((itemsText vs ++ rest).length + 1) true [] (itemsText vs ++ rest) =
      if nestingItems vs ≤ depth then .ok (bs.reverse, Ascii.rightBracket :: rest)
      else .error .malformed := by
    cases vs with
    | nil =>
      rw [show bs = [] by simpa [pure, Except.pure] using hb.symm]
      exact foldItems_end _ _ _ _ _
    | cons v vs =>
      obtain ⟨b, cs, hvb, hcs, rfl⟩ := mapM_cons_eq_ok.1 hb
      have hnext := (nextItem_of_solid (hv v List.mem_cons_self).solid (renderItems vs ++ rest)).1
      have hlen := length_le_renderItems vs
      rw [itemsText, List.append_assoc,
        foldItems_item (hr v List.mem_cons_self b hvb) hnext (delimited_renderItems vs rest),
        foldItems_renderItems depth (fun w hw => hv w (List.mem_cons_of_mem _ hw))
          (fun w hw => hr w (List.mem_cons_of_mem _ hw)) hcs _
          (by simp only [List.length_append]; omega), within_max, nestingItems]
      simp
  rw [readItems, hfold]
  by_cases h : nestingItems vs ≤ depth
  · simp [h, bind, Except.bind, hmark, pure, Except.pure]
  · simp [h, bind, Except.bind]

end

/-! ## Objects -/

/-- The members of an object and its closing brace. -/
def membersText : List (String × Json) → Bytes
  | [] => [Ascii.rightBrace]
  | (k, v) :: rest => renderString k ++ Ascii.colon :: render v ++ renderMembers rest

theorem render_obj (members : List (String × Json)) :
    render (.obj members) = Ascii.leftBrace :: membersText members := by
  cases members with
  | nil => rfl
  | cons m rest => simp [render, membersText]

theorem delimited_renderMembers (members : List (String × Json)) (rest : Bytes) :
    Delimited (renderMembers members ++ rest) := by
  cases members with
  | nil => exact delimited_cons _ (by decide)
  | cons m members =>
    obtain ⟨k, v⟩ := m
    simp only [renderMembers, List.cons_append]
    exact delimited_cons _ (by decide)

theorem nextKey_end (first : Bool) (rest : Bytes) :
    nextKey first (Ascii.rightBrace :: rest) = .ok (none, Ascii.rightBrace :: rest) := by
  have hskip : skipSpace (Ascii.rightBrace :: rest) = Ascii.rightBrace :: rest :=
    skipSpace_cons (by decide) _
  simp only [nextKey, hskip, if_true]

theorem nextKey_renderString (k : String) (rest : Bytes) :
    nextKey true (renderString k ++ rest) = .ok (some k, rest) ∧
      nextKey false (Ascii.comma :: (renderString k ++ rest)) = .ok (some k, rest) := by
  have htext : renderString k ++ rest =
      Ascii.quote :: ((Bytes.ofText k).flatMap escape ++ Ascii.quote :: rest) := by
    simp [renderString]
  have hread := readString_render k rest
  generalize (Bytes.ofText k).flatMap escape ++ Ascii.quote :: rest = body at htext hread
  have hskip : skipSpace (Ascii.quote :: body) = Ascii.quote :: body :=
    skipSpace_cons (by decide) _
  have hcomma : skipSpace (Ascii.comma :: Ascii.quote :: body) =
      Ascii.comma :: Ascii.quote :: body :=
    skipSpace_cons (by decide) _
  simp only [htext, nextKey, nextKey.key, hskip, hcomma, if_true, hread, Except.map,
    show Ascii.comma ≠ Ascii.rightBrace by decide, show Ascii.quote ≠ Ascii.rightBrace by decide,
    Bool.false_eq_true, if_false, and_self]

section
variable {σ : Type} {member : σ → String → Bytes → Reading σ}
  {take : σ → String × Json → Except Mismatch σ} {depth : Nat}

/-- What is after the key of a member is read as `take` says, if the depth suffices. -/
def TakesAs (member : σ → String → Bytes → Reading σ) (take : σ → String × Json → Except Mismatch σ)
    (depth : Nat) (m : String × Json) : Prop :=
  ∀ acc acc', take acc m = .ok acc' → ∀ rest, Delimited rest →
    member acc m.1 (Ascii.colon :: render m.2 ++ rest) =
      if m.2.nesting ≤ depth then .ok (acc', rest) else .error .malformed

theorem foldMembers_member {m : String × Json} (hm : TakesAs member take depth m) {acc acc' : σ}
    (ht : take acc m = .ok acc') {s tail : Bytes} {first : Bool}
    (hnext : nextKey first s = .ok (some m.1, Ascii.colon :: render m.2 ++ tail))
    (htail : Delimited tail) (n : Nat) :
    foldMembers member (n + 1) first acc s =
      if m.2.nesting ≤ depth then foldMembers member n false acc' tail else .error .malformed := by
  rw [foldMembers, hnext]
  simp only [hm acc acc' ht tail htail]
  by_cases h : m.2.nesting ≤ depth
  · simp only [h, if_true]
  · simp only [h, if_false]

theorem foldlM_cons_eq_ok {α ε : Type} {f : σ → α → Except ε σ} {a : α} {as : List α} {x y : σ} :
    (a :: as).foldlM f x = .ok y ↔ ∃ z, f x a = .ok z ∧ as.foldlM f z = .ok y := by
  rw [List.foldlM_cons]
  cases f x a with
  | error e => simp [bind, Except.bind]
  | ok z => simp [bind, Except.bind]

/-- The members after the first. -/
theorem foldMembers_renderMembers {ms : List (String × Json)}
    (hm : ∀ m ∈ ms, TakesAs member take depth m) {acc acc' : σ}
    (ht : ms.foldlM take acc = .ok acc') (n : Nat) (hn : ms.length < n) (rest : Bytes) :
    foldMembers member n false acc (renderMembers ms ++ rest) =
      if nestingMembers ms ≤ depth then .ok (acc', Ascii.rightBrace :: rest)
      else .error .malformed := by
  obtain ⟨n, rfl⟩ : ∃ m, n = m + 1 := ⟨n - 1, by omega⟩
  induction ms generalizing n acc with
  | nil =>
    cases ht
    simp [renderMembers, foldMembers, nextKey_end, nestingMembers]
  | cons m ms ih =>
    obtain ⟨z, hz, hms⟩ := foldlM_cons_eq_ok.1 ht
    obtain ⟨n, rfl⟩ : ∃ m, n = m + 1 := ⟨n - 1, by simp at hn; omega⟩
    have hnext := (nextKey_renderString m.1
      (Ascii.colon :: render m.2 ++ (renderMembers ms ++ rest))).2
    have htext : renderMembers (m :: ms) ++ rest = Ascii.comma ::
        (renderString m.1 ++ (Ascii.colon :: render m.2 ++ (renderMembers ms ++ rest))) := by
      simp [renderMembers]
    rw [htext, foldMembers_member (hm m List.mem_cons_self) hz hnext
      (delimited_renderMembers ms rest),
      ih (fun m' hm' => hm m' (List.mem_cons_of_mem _ hm')) hms n (by simpa using hn), within_max,
      nestingMembers]

theorem length_lt_renderMembers (ms : List (String × Json)) :
    ms.length < (renderMembers ms).length := by
  induction ms with
  | nil => simp [renderMembers]
  | cons m ms ih =>
    simp only [renderMembers, List.length_cons, List.length_append]
    omega

theorem readMembers_membersText {ms : List (String × Json)}
    (hm : ∀ m ∈ ms, TakesAs member take depth m) {acc acc' : σ}
    (ht : ms.foldlM take acc = .ok acc') (rest : Bytes) :
    readMembers member acc (membersText ms ++ rest) =
      if nestingMembers ms ≤ depth then .ok (acc', rest) else .error .malformed := by
  have hmark : mark Ascii.rightBrace (Ascii.rightBrace :: rest) = .ok rest := by
    rw [mark, skipSpace_cons (by decide)]
    simp [expect]
  have hfold : foldMembers member ((membersText ms ++ rest).length + 1) true acc
      (membersText ms ++ rest) =
      if nestingMembers ms ≤ depth then .ok (acc', Ascii.rightBrace :: rest)
      else .error .malformed := by
    cases ms with
    | nil =>
      cases ht
      simp [membersText, foldMembers, nextKey_end, nestingMembers]
    | cons m ms =>
      obtain ⟨z, hz, hms⟩ := foldlM_cons_eq_ok.1 ht
      have hnext := (nextKey_renderString m.1
        (Ascii.colon :: render m.2 ++ (renderMembers ms ++ rest))).1
      have htext : membersText (m :: ms) ++ rest =
          renderString m.1 ++ (Ascii.colon :: render m.2 ++ (renderMembers ms ++ rest)) := by
        simp [membersText]
      have hlen := length_lt_renderMembers ms
      rw [htext, foldMembers_member (hm m List.mem_cons_self) hz hnext
        (delimited_renderMembers ms rest),
        foldMembers_renderMembers (fun m' hm' => hm m' (List.mem_cons_of_mem _ hm')) hms _
          (by simp only [List.length_append, List.length_cons]; omega), within_max, nestingMembers]
  rw [readMembers, hfold]
  by_cases h : nestingMembers ms ≤ depth
  · simp [h, bind, Except.bind, hmark, pure, Except.pure]
  · simp [h, bind, Except.bind]

theorem foldMembers_of_readMembers {acc acc' : σ} {s rest : Bytes}
    (h : readMembers member acc s = .ok (acc', rest)) :
    ∃ rest', foldMembers member (s.length + 1) true acc s = .ok (acc', rest') := by
  simp only [readMembers, bind, Except.bind] at h
  split at h
  · cases h
  next found hfound =>
    split at h
    · cases h
    · cases h
      exact ⟨_, hfound⟩

/-- Reading the members of an object begins with the first of them. -/
theorem foldMembers_membersText (first : Bool) {n : Nat} {m : String × Json}
    {ms : List (String × Json)} {acc acc' acc'' : σ} {rest : Bytes}
    (hm : TakesAs member take depth m) (ht : take acc m = .ok acc')
    (h : foldMembers member n first acc
      (if first then membersText (m :: ms) else renderMembers (m :: ms)) = .ok (acc'', rest)) :
    ∃ n, foldMembers member n false acc' (renderMembers ms) = .ok (acc'', rest) := by
  cases n with
  | zero => cases h
  | succ n =>
    have hnext := nextKey_renderString m.1 (Ascii.colon :: render m.2 ++ renderMembers ms)
    have htail := delimited_renderMembers ms []
    rw [List.append_nil] at htail
    have hread : foldMembers member (n + 1) first acc
        (if first then membersText (m :: ms) else renderMembers (m :: ms)) =
        if m.2.nesting ≤ depth then foldMembers member n false acc' (renderMembers ms)
        else .error .malformed := by
      cases first with
      | true => exact foldMembers_member hm ht (by simpa [membersText] using hnext.1) htail n
      | false => exact foldMembers_member hm ht (by simpa [renderMembers] using hnext.2) htail n
    rw [hread] at h
    split at h
    · exact ⟨n, h⟩
    · cases h

end

/-- The value after the colon. -/
theorem afterColon_colon {α : Type} (value : Bytes → Reading α) (s : Bytes) :
    afterColon value (Ascii.colon :: s) = value s := by
  rw [afterColon, mark, skipSpace_cons (by decide)]
  simp [expect]

/-! ## Any value -/

theorem expect_append (xs rest : Bytes) : expect xs (xs ++ rest) = .ok rest := by
  induction xs with
  | nil => rfl
  | cons x xs ih => rw [List.cons_append, expect, if_pos rfl, ih]

theorem readFlat_digits {i : Int} (hlow : -0x8000000000000000 ≤ i) (hhigh : i < UInt64.size)
    {rest : Bytes} (hr : EndsNumber rest) :
    readFlat (Bytes.ofInt i ++ rest) = .ok (.num (.int i), rest) := by
  have hread := readNumber_ofInt hlow hhigh hr
  obtain ⟨b, t, hb, hn⟩ := head_ofInt i
  obtain ⟨-, -, -, -, hnull, htrue, hfalse⟩ := numeric_ne hn
  rw [hb, List.cons_append] at hread ⊢
  simp only [readFlat, hnull, htrue, hfalse, hn, hread, if_true, if_false, Except.map]

/-! ## Values -/

/-- Nothing but an array or an object needs any depth. -/
theorem read_of_flat {b : UInt8} {s : Bytes} (hb : Ascii.isSpace b = false)
    (harr : b ≠ Ascii.leftBracket) (hobj : b ≠ Ascii.leftBrace) (depth : Nat) :
    read depth (b :: s) = readFlat (b :: s) := by
  cases depth <;> simp [read, skipSpace_cons hb, harr, hobj]

theorem readAs_flat {v : Json} (hv : v.nesting = 0) {b : UInt8} {t : Bytes} (ht : render v = b :: t)
    (hb : Ascii.isSpace b = false) (harr : b ≠ Ascii.leftBracket) (hobj : b ≠ Ascii.leftBrace)
    (hread : ∀ rest, Delimited rest → readFlat (render v ++ rest) = .ok (v, rest)) :
    ReadAs read v v := by
  intro depth rest hr
  rw [hv, if_pos (Nat.zero_le _), ← hread rest hr, ht, List.cons_append,
    read_of_flat hb harr hobj]

theorem mapM_ok {α : Type} (as : List α) :
    as.mapM (Except.ok : α → Except Mismatch α) = .ok as := by
  induction as with
  | nil => rfl
  | cons a as ih => exact mapM_cons_eq_ok.2 ⟨a, as, rfl, ih, rfl⟩

theorem foldlM_push {α : Type} (as acc : List α) :
    as.foldlM (fun acc a => (Except.ok (a :: acc) : Except Mismatch (List α))) acc =
      .ok (as.reverse ++ acc) := by
  induction as generalizing acc with
  | nil => rfl
  | cons a as ih => exact foldlM_cons_eq_ok.2 ⟨a :: acc, rfl, by rw [ih]; simp⟩

theorem readFlat_renderString (s : String) (rest : Bytes) :
    readFlat (renderString s ++ rest) = .ok (.str s, rest) := by
  have htext : renderString s ++ rest =
      Ascii.quote :: ((Bytes.ofText s).flatMap escape ++ Ascii.quote :: rest) := by
    simp [renderString]
  rw [htext]
  exact congrArg (Except.map fun read => (Json.str read.1, read.2)) (readString_render s rest)

theorem readAs_arr {vs : List Json} (hv : ∀ v ∈ vs, v.Integral)
    (hr : ∀ v ∈ vs, ReadAs read v v) : ReadAs read (.arr vs) (.arr vs) := by
  intro depth rest _
  rw [render_arr, List.cons_append, nesting]
  have hskip := skipSpace_cons (b := Ascii.leftBracket) (by decide) (itemsText vs ++ rest)
  cases depth with
  | zero => simp [read, hskip]
  | succ depth =>
    have hout : ∀ v ∈ vs, ∀ b, (.ok v : Except Mismatch Json) = .ok b → ReadAs read v b := by
      rintro v hv b ⟨⟩
      exact hr v hv
    have := readItems_itemsText depth hv hout (mapM_ok vs) rest
    rw [read, hskip]
    simp only [if_true, this, Nat.add_le_add_iff_right]
    by_cases h : nestingItems vs ≤ depth
    · simp only [h, if_true, Except.map, List.reverse_reverse]
    · simp only [h, if_false, Except.map]

theorem readAs_obj {ms : List (String × Json)} (hr : ∀ m ∈ ms, ReadAs read m.2 m.2) :
    ReadAs read (.obj ms) (.obj ms) := by
  intro depth rest _
  rw [render_obj, List.cons_append, nesting]
  have hskip := skipSpace_cons (b := Ascii.leftBrace) (by decide) (membersText ms ++ rest)
  cases depth with
  | zero => simp [read, hskip]
  | succ depth =>
    have hread (member : List (String × Json) → String → Bytes → Reading (List (String × Json)))
        (htakes : ∀ m ∈ ms, TakesAs member (fun members m => .ok (m :: members)) depth m) :=
      readMembers_membersText htakes (foldlM_push ms []) rest
    rw [read, hskip]
    simp only [show Ascii.leftBrace ≠ Ascii.leftBracket by decide, if_true, if_false,
      Nat.add_le_add_iff_right]
    rw [hread]
    · by_cases h : nestingMembers ms ≤ depth
      · simp only [h, if_true, Except.map, List.append_nil, List.reverse_reverse]
      · simp only [h, if_false, Except.map]
    · rintro m hm acc acc' ⟨⟩ rest hrest
      simp only [List.cons_append, afterColon_colon, hr m hm depth rest hrest]
      by_cases h : m.2.nesting ≤ depth
      · simp only [h, if_true, Except.map]
      · simp only [h, if_false, Except.map]

/-- **What is written is read back**, as far as the depth goes. -/
theorem Integral.readAs {v : Json} (h : v.Integral) : ReadAs read v v := by
  induction h with
  | null =>
    refine readAs_flat rfl rfl (by decide) (by decide) (by decide) fun rest _ => ?_
    exact congrArg (Except.map (Json.null, ·)) (expect_append (Bytes.ofChars ['u', 'l', 'l']) rest)
  | bool b =>
    cases b with
    | true =>
      refine readAs_flat rfl rfl (by decide) (by decide) (by decide) fun rest _ => ?_
      exact congrArg (Except.map (Json.bool true, ·))
        (expect_append (Bytes.ofChars ['r', 'u', 'e']) rest)
    | false =>
      refine readAs_flat rfl rfl (by decide) (by decide) (by decide) fun rest _ => ?_
      exact congrArg (Except.map (Json.bool false, ·))
        (expect_append (Bytes.ofChars ['a', 'l', 's', 'e']) rest)
  | int low high =>
    obtain ⟨b, t, hb, hn⟩ := head_ofInt _
    obtain ⟨hspace, -, harr, hobj, -⟩ := numeric_ne hn
    exact readAs_flat rfl hb hspace harr hobj fun rest hr => readFlat_digits low high hr.endsNumber
  | str s =>
    refine readAs_flat rfl rfl (by decide) (by decide) (by decide) fun rest _ => ?_
    exact readFlat_renderString s rest
  | arr each ih => exact readAs_arr each ih
  | obj _ ih => exact readAs_obj ih

end LeaseQueue.Json
