import LeaseQueue.Json.Printer
import LeaseQueue.Json.Reader

/-!
# Strings and whole numbers that are written and read

A string is read back octet by octet, whatever it holds:

  `readString ((Bytes.ofText t).flatMap escape ++ Ascii.quote :: rest) = .ok (t, rest)`

and an integer of 64 bits digit by digit, from the left:

  `readNumber (Bytes.ofInt i ++ rest) = .ok (.int i, rest)`

unless `rest` begins with something that would go on with the number.
-/

namespace LeaseQueue

namespace Json

/-! ## Strings -/

theorem hexQuad?_control : ∀ n < 32, hexQuad? (Bytes.ofChar '0') (Bytes.ofChar '0')
    (Bytes.ofChar (Nat.digitChar (n / 16))) (Bytes.ofChar (Nat.digitChar (n % 16))) = some n := by
  decide

theorem ofCodePoint_control : ∀ n < 32, ofCodePoint n = [n.toUInt8] := by
  decide +kernel

theorem readBody_quote (s : Bytes) : readBody (Ascii.quote :: s) = .ok ([], s) := by
  rw [readBody.eq_def]
  rfl

theorem readBody_plainEscape {e octet : UInt8} (h : plainEscape? e = some octet) (s : Bytes) :
    readBody (Ascii.backslash :: e :: s) = prepend [octet] (readBody s) := by
  rw [readBody.eq_def]
  simp only [h, if_true, show Ascii.backslash ≠ Ascii.quote by decide, if_false]

theorem readBody_plain {b : UInt8} (hq : b ≠ Ascii.quote) (hb : b ≠ Ascii.backslash)
    (hc : ¬b < 0x20) (s : Bytes) : readBody (b :: s) = prepend [b] (readBody s) := by
  rw [readBody.eq_def]
  simp only [hq, hb, hc, if_false]

theorem readBody_control {b : UInt8} (hb : b < 0x20) (s : Bytes) :
    readBody (Bytes.ofChars
      ['\\', 'u', '0', '0', Nat.digitChar (b.toNat / 16), Nat.digitChar (b.toNat % 16)] ++ s) =
      prepend [b] (readBody s) := by
  have hn : b.toNat < 32 := hb
  have hu : plainEscape? (Bytes.ofChar 'u') = none := by decide
  have hlow : isLowSurrogate b.toNat = false := by simp [isLowSurrogate]; omega
  have hhigh : isHighSurrogate b.toNat = false := by simp [isHighSurrogate]; omega
  rw [readBody.eq_def]
  simp only [Bytes.ofChars, List.map_cons, List.map_nil, List.cons_append, List.nil_append, hu,
    hexQuad?_control _ hn, hlow, hhigh, ofCodePoint_control _ hn, Nat.toUInt8_eq, UInt8.ofNat_toNat,
    if_true, Bool.false_eq_true, if_false]
  rw [if_neg (by decide), if_pos (by decide)]

theorem readBody_escape (b : UInt8) (s : Bytes) :
    readBody (escape b ++ s) = prepend [b] (readBody s) := by
  unfold escape
  split
  · next h => subst h; exact readBody_plainEscape (by decide) s
  split
  · next h => subst h; exact readBody_plainEscape (by decide) s
  split
  · next hq hb h => exact readBody_plain hq hb (by simpa using h) s
  split
  · next h => subst h; exact readBody_plainEscape (by decide) s
  split
  · next h => subst h; exact readBody_plainEscape (by decide) s
  split
  · next h => subst h; exact readBody_plainEscape (by decide) s
  split
  · next h => subst h; exact readBody_plainEscape (by decide) s
  split
  · next h => subst h; exact readBody_plainEscape (by decide) s
  · next h _ _ _ _ _ => exact readBody_control (by simpa using h) s

theorem readBody_escaped (bs rest : Bytes) :
    readBody (bs.flatMap escape ++ Ascii.quote :: rest) = .ok (bs, rest) := by
  induction bs with
  | nil => simp [readBody_quote]
  | cons b bs ih => simp [readBody_escape, ih, prepend]

theorem readString_render (t : String) (rest : Bytes) :
    readString ((Bytes.ofText t).flatMap escape ++ Ascii.quote :: rest) = .ok (t, rest) := by
  simp [readString, readBody_escaped, Bytes.toText?_ofText]

/-! ## Numbers -/

/-- No digit, point or exponent mark follows. -/
def EndsNumber (rest : Bytes) : Prop :=
  ∀ b t, rest = b :: t → Bytes.isDigit b = false ∧ b ≠ Ascii.point ∧ Ascii.isExponentMark b = false

theorem isDigit_ofChar_digitChar :
    ∀ d < 10, Bytes.isDigit (Bytes.ofChar (Nat.digitChar d)) = true := by
  decide

theorem digitValue_ofChar_digitChar :
    ∀ d < 10, Bytes.digitValue (Bytes.ofChar (Nat.digitChar d)) = d := by
  decide

theorem ofNat_of_lt {n : Nat} (h : n < 10) : Bytes.ofNat n = [Bytes.ofChar (Nat.digitChar n)] := by
  simp [Bytes.ofNat, Bytes.ofChars, Nat.toDigits_of_lt_base h]

theorem ofNat_of_le {n : Nat} (h : 10 ≤ n) :
    Bytes.ofNat n = Bytes.ofNat (n / 10) ++ [Bytes.ofChar (Nat.digitChar (n % 10))] := by
  simp [Bytes.ofNat, Bytes.ofChars, Nat.toDigits_of_base_le (by omega) h]

theorem isDigit_of_mem_ofNat (n : Nat) : ∀ b ∈ Bytes.ofNat n, Bytes.isDigit b = true := by
  induction n using Nat.strongRecOn with
  | ind n ih =>
    intro b hb
    by_cases h : n < 10
    · rw [ofNat_of_lt h, List.mem_singleton] at hb
      rw [hb]
      exact isDigit_ofChar_digitChar n h
    · rw [ofNat_of_le (by omega), List.mem_append, List.mem_singleton] at hb
      rcases hb with hb | rfl
      · exact ih (n / 10) (by omega) b hb
      · exact isDigit_ofChar_digitChar (n % 10) (by omega)

theorem toNat_ofNat (n : Nat) : Bytes.toNat 0 (Bytes.ofNat n) = n := by
  induction n using Nat.strongRecOn with
  | ind n ih =>
    by_cases h : n < 10
    · simp [ofNat_of_lt h, Bytes.toNat, digitValue_ofChar_digitChar n h]
    · have hd := digitValue_ofChar_digitChar (n % 10) (by omega)
      have hq := ih (n / 10) (by omega)
      simp only [Bytes.toNat] at hq
      simp only [ofNat_of_le (n := n) (by omega), Bytes.toNat, List.foldl_append, hq,
        List.foldl_cons, List.foldl_nil, hd]
      omega

/-- The first digit is a zero only in the number zero. -/
theorem head_ofNat (n : Nat) : ∃ b t, Bytes.ofNat n = b :: t ∧ (b = Ascii.zero → t = []) := by
  induction n using Nat.strongRecOn with
  | ind n ih =>
    by_cases h : n < 10
    · exact ⟨_, [], ofNat_of_lt h, fun _ => rfl⟩
    · obtain ⟨b, t, hbt, hz⟩ := ih (n / 10) (by omega)
      have hdigits : Bytes.ofNat n = b :: (t ++ [Bytes.ofChar (Nat.digitChar (n % 10))]) := by
        rw [ofNat_of_le (by omega), hbt]
        rfl
      refine ⟨b, t ++ [Bytes.ofChar (Nat.digitChar (n % 10))], hdigits, ?_⟩
      intro hb
      exfalso
      have ht := hz hb
      subst ht hb
      have hn := toNat_ofNat (n / 10)
      rw [hbt, show Bytes.toNat 0 [Ascii.zero] = 0 by decide] at hn
      omega

theorem head_ofInt (i : Int) :
    ∃ b t, Bytes.ofInt i = b :: t ∧ (b = Ascii.minus ∨ Bytes.isDigit b = true) := by
  by_cases h : i < 0
  · exact ⟨Ascii.minus, Bytes.ofNat i.natAbs, by rw [Bytes.ofInt, if_pos h]; rfl, .inl rfl⟩
  · obtain ⟨b, t, hb, -⟩ := head_ofNat i.natAbs
    have hd := isDigit_of_mem_ofNat i.natAbs b (by rw [hb]; exact List.mem_cons_self)
    exact ⟨b, t, by rw [Bytes.ofInt, if_neg h, hb], .inr hd⟩

theorem le_toNat (n : Nat) (ds : Bytes) : n ≤ Bytes.toNat n ds := by
  induction ds generalizing n with
  | nil => exact Nat.le_refl n
  | cons d ds ih =>
    have := ih (10 * n + Bytes.digitValue d)
    simp only [Bytes.toNat, List.foldl_cons] at this ⊢
    omega

theorem packWhole_eq (n : Nat) (ds : Bytes) (h : Bytes.toNat n ds < UInt64.size) :
    Numeral.packWhole n ds = (Bytes.toNat n ds, 0) := by
  induction ds generalizing n with
  | nil => rfl
  | cons d ds ih =>
    have hstep : Bytes.toNat n (d :: ds) = Bytes.toNat (10 * n + Bytes.digitValue d) ds := rfl
    rw [hstep] at h ⊢
    have hle := le_toNat (10 * n + Bytes.digitValue d) ds
    rw [Numeral.packWhole, if_pos (by omega), ih _ h]

theorem readDigits_append {ds rest : Bytes} (e : ReadError) (hne : ds ≠ [])
    (hd : ∀ b ∈ ds, Bytes.isDigit b = true) (hr : EndsNumber rest) :
    readDigits e (ds ++ rest) = .ok (ds, rest) := by
  have hrest : rest.takeWhile Bytes.isDigit = [] ∧ rest.dropWhile Bytes.isDigit = rest := by
    cases rest with
    | nil => simp
    | cons b t => simp [(hr b t rfl).1]
  obtain ⟨b, t, rfl⟩ := List.exists_cons_of_ne_nil hne
  have hb := hd b List.mem_cons_self
  rw [List.cons_append, readDigits, if_pos hb, ← List.cons_append,
    List.takeWhile_append_of_pos hd, List.dropWhile_append_of_pos hd, hrest.1, hrest.2,
    List.append_nil]

theorem readWhole_ofNat (e : ReadError) (n : Nat) {rest : Bytes} (hr : EndsNumber rest) :
    readWhole e (Bytes.ofNat n ++ rest) = .ok (Bytes.ofNat n, rest) := by
  obtain ⟨b, t, hbt, hz⟩ := head_ofNat n
  have hread := readDigits_append e (by rw [hbt]; simp) (isDigit_of_mem_ofNat n) hr
  by_cases hb : b = Ascii.zero
  · have ht := hz hb
    subst ht hb
    rw [hbt] at hread ⊢
    cases rest with
    | nil => exact hread
    | cons c rest =>
      have hc := (hr c rest rfl).1
      show (if Bytes.isDigit c = true then _ else Except.ok ([Ascii.zero], c :: rest)) = _
      rw [hc, if_neg (by decide)]
  · rw [← hread, hbt, List.cons_append]
    unfold readWhole
    split
    · next h => exact absurd (List.cons.inj h).1 hb
    · rfl

theorem readFraction_none (e : ReadError) {rest : Bytes} (hr : EndsNumber rest) :
    readFraction e rest = .ok (none, rest) := by
  cases rest with
  | nil => rfl
  | cons b t => rw [readFraction, if_neg (hr b t rfl).2.1]

theorem readExponent_none (e : ReadError) {rest : Bytes} (hr : EndsNumber rest) :
    readExponent e rest = .ok (none, rest) := by
  cases rest with
  | nil => rfl
  | cons b t => simp [readExponent, (hr b t rfl).2.2]

theorem readNumeral_unsigned {e : ReadError} {s whole rest : Bytes}
    (hm : ∀ t, s ≠ Ascii.minus :: t) (hw : readWhole e s = .ok (whole, rest))
    (hr : EndsNumber rest) : readNumeral e s = .ok (⟨false, whole, none, none⟩, rest) := by
  unfold readNumeral
  split
  next negative t hsign =>
  split at hsign
  · exact absurd rfl (hm _)
  cases hsign
  simp only [hw, bind, Except.bind, readFraction_none e hr, readExponent_none e hr]
  rfl

theorem readNumeral_minus {e : ReadError} {s whole rest : Bytes}
    (hw : readWhole e s = .ok (whole, rest)) (hr : EndsNumber rest) :
    readNumeral e (Ascii.minus :: s) = .ok (⟨true, whole, none, none⟩, rest) := by
  show Except.bind (readWhole e s) _ = _
  simp only [hw, bind, Except.bind, readFraction_none e hr, readExponent_none e hr]
  rfl

theorem readNumeral_ofInt (e : ReadError) (i : Int) {rest : Bytes} (hr : EndsNumber rest) :
    readNumeral e (Bytes.ofInt i ++ rest) =
      .ok (⟨decide (i < 0), Bytes.ofNat i.natAbs, none, none⟩, rest) := by
  have hw := readWhole_ofNat e i.natAbs hr
  by_cases h : i < 0
  · rw [Bytes.ofInt, if_pos h, decide_eq_true h]
    exact readNumeral_minus hw hr
  · rw [Bytes.ofInt, if_neg h, decide_eq_false h]
    refine readNumeral_unsigned (fun t ht => ?_) hw hr
    obtain ⟨b, u, hbu, -⟩ := head_ofNat i.natAbs
    have hb := isDigit_of_mem_ofNat i.natAbs b (by rw [hbu]; exact List.mem_cons_self)
    rw [hbu, List.cons_append, List.cons.injEq] at ht
    rw [ht.1] at hb
    exact absurd hb (by decide)

theorem value_ofInt {i : Int} (hlow : -0x8000000000000000 ≤ i) (hhigh : i < UInt64.size) :
    (Numeral.mk (decide (i < 0)) (Bytes.ofNat i.natAbs) none none).value = .ok (.int i) := by
  have hsize : UInt64.size = 0x10000000000000000 := rfl
  have hp := packWhole_eq 0 (Bytes.ofNat i.natAbs) (by rw [toNat_ofNat]; omega)
  rw [toNat_ofNat] at hp
  unfold Numeral.value
  simp only [hp]
  by_cases h : i < 0
  · simp only [h, decide_true]
    rw [if_neg (by simp), if_pos ⟨trivial, by omega, by omega⟩]
    congr 2
    omega
  · simp only [h, decide_false, and_self, if_true]
    congr 2
    omega

theorem readNumber_ofInt {i : Int} (hlow : -0x8000000000000000 ≤ i) (hhigh : i < UInt64.size)
    {rest : Bytes} (hr : EndsNumber rest) :
    readNumber (Bytes.ofInt i ++ rest) = .ok (.int i, rest) := by
  rw [readNumber, readNumeral_ofInt _ i hr]
  simp only [value_ofInt hlow hhigh]
  rfl

end Json
end LeaseQueue
