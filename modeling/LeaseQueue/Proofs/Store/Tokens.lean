import LeaseQueue.Store.Memory
import Mathlib.Data.List.Induction

/-!
# How a token may be spelled

Storage in memory takes a token for a number, so it does not only accept the tokens that it issues
but all other spellings of them:

  `parseVersion? token = some v ↔ Spells token (toString v) ∧ v < UInt64.size`
-/

namespace LeaseQueue.Store.Memory

/-- The first token is the second one, but for zeros in front and a plus sign before them. -/
def Spells (token issued : Token) : Prop :=
  ∃ zeros : Nat, token.toList = List.replicate zeros '0' ++ issued.toList ∨
    token.toList = '+' :: (List.replicate zeros '0' ++ issued.toList)

theorem Spells.refl (token : Token) : Spells token token := ⟨0, .inl rfl⟩

/-! ## Rows of digits -/

theorem toDigits_of_isDigit {c : Char} (h : c.isDigit) :
    c.toNat - 48 < 10 ∧ Nat.toDigits 10 (c.toNat - 48) = [c] := by
  have hbounds : 48 ≤ c.toNat ∧ c.toNat ≤ 57 := by
    simpa [Char.isDigit, UInt32.le_iff_toNat_le] using h
  have hlt : c.toNat - 48 < 10 := by omega
  refine ⟨hlt, ?_⟩
  rw [Nat.toDigits_of_lt_base hlt, List.singleton_inj, ← Char.toNat_inj,
    Nat.toNat_digitChar_of_lt_ten hlt]
  omega

/-- A row of digits is that of its number with zeros in front. -/
theorem exists_zeros {digits : List Char} (hsome : digits ≠ []) (h : ∀ c ∈ digits, c.isDigit) :
    ∃ zeros : Nat, digits =
      List.replicate zeros '0' ++ Nat.toDigits 10 (Nat.ofDigitChars 10 digits 0) := by
  induction digits using List.reverseRecOn with
  | nil => exact absurd rfl hsome
  | append_singleton digits c ih =>
    obtain ⟨hdigits, hc⟩ := List.forall_mem_append.1 h
    obtain ⟨hlt, hlast⟩ := toDigits_of_isDigit (hc c (List.mem_singleton_self c))
    have hvalue : Nat.ofDigitChars 10 (digits ++ [c]) 0 =
        10 * Nat.ofDigitChars 10 digits 0 + (c.toNat - 48) := by
      rw [Nat.ofDigitChars_append, Nat.ofDigitChars_cons, Nat.ofDigitChars_nil]
      rfl
    rw [hvalue]
    by_cases hempty : digits = []
    · subst hempty
      refine ⟨0, ?_⟩
      rw [Nat.ofDigitChars_nil, Nat.mul_zero, Nat.zero_add, hlast]
      rfl
    · obtain ⟨zeros, hzeros⟩ := ih hempty hdigits
      rcases Nat.eq_zero_or_pos (Nat.ofDigitChars 10 digits 0) with hzero | hpos
      · refine ⟨zeros + 1, ?_⟩
        rw [hzero, Nat.toDigits_zero] at hzeros
        rw [hzero, Nat.mul_zero, Nat.zero_add, hlast, List.replicate_succ', ← hzeros]
      · refine ⟨zeros, ?_⟩
        rw [← Nat.toDigits_append_toDigits (by decide) hpos hlt, hlast, ← List.append_assoc,
          ← hzeros]

theorem ofDigitChars_zeros (zeros v : Nat) :
    Nat.ofDigitChars 10 (List.replicate zeros '0' ++ Nat.toDigits 10 v) 0 = v := by
  rw [Nat.ofDigitChars_append, Nat.ofDigitChars_replicate_zero, Nat.mul_zero,
    Nat.ofDigitChars_ten_toDigits]

theorem isDigit_of_mem_zeros {zeros v : Nat} :
    ∀ c ∈ List.replicate zeros '0' ++ Nat.toDigits 10 v, c.isDigit := by
  intro c hc
  rcases List.mem_append.1 hc with hzero | hdigit
  · rw [List.eq_of_mem_replicate hzero]
    rfl
  · exact Nat.isDigit_of_mem_toDigits (by decide) (by decide) hdigit

/-! ## Tokens -/

/-- What is left of a token without a plus sign. -/
def unsigned (token : Token) : List Char :=
  match token.toList with
  | '+' :: rest => rest
  | all => all

theorem parseVersion?_eq (token : Token) : parseVersion? token =
    if (unsigned token).isEmpty || (unsigned token).any (!·.isDigit) then none
    else if Nat.ofDigitChars 10 (unsigned token) 0 < UInt64.size then
      some (Nat.ofDigitChars 10 (unsigned token) 0)
    else none := rfl

theorem toList_cases (token : Token) :
    token.toList = unsigned token ∨ token.toList = '+' :: unsigned token := by
  unfold unsigned
  split
  next rest h => exact .inr h
  · exact .inl rfl

theorem unsigned_of_plus {token : Token} {rest : List Char} (h : token.toList = '+' :: rest) :
    unsigned token = rest := by
  simp only [unsigned, h]

theorem unsigned_of_isDigit {token : Token} (h : ∀ c ∈ token.toList, c.isDigit) :
    unsigned token = token.toList := by
  rcases toList_cases token with hbare | hplus
  · exact hbare.symm
  · have hdigit : Char.isDigit '+' := h '+' (hplus ▸ List.mem_cons_self)
    exact absurd hdigit (by decide)

/-- The version of a token can be told from any of its spellings. -/
theorem unsigned_of_spells {token : Token} {v : Nat} (h : Spells token (toString v)) :
    ∃ zeros : Nat, unsigned token = List.replicate zeros '0' ++ Nat.toDigits 10 v := by
  have hissued : (toString v).toList = Nat.toDigits 10 v := Nat.toList_repr
  rw [Spells, hissued] at h
  obtain ⟨zeros, hbare | hplus⟩ := h
  · exact ⟨zeros, by rw [unsigned_of_isDigit (hbare ▸ isDigit_of_mem_zeros), hbare]⟩
  · exact ⟨zeros, unsigned_of_plus hplus⟩

/-- **A token is taken for a version just if it spells it**, and the version can be counted. -/
theorem parseVersion?_eq_some_iff {token : Token} {v : Nat} :
    parseVersion? token = some v ↔ Spells token (toString v) ∧ v < UInt64.size := by
  constructor
  · intro h
    rw [parseVersion?_eq] at h
    split at h
    · cases h
    next hdigits =>
      rw [Bool.or_eq_true, not_or, List.isEmpty_iff, List.any_eq_true] at hdigits
      split at h
      next hv =>
        obtain rfl := Option.some.inj h
        obtain ⟨zeros, hzeros⟩ := exists_zeros hdigits.1 fun c hc =>
          by_contra fun hno => hdigits.2 ⟨c, hc, by simpa using hno⟩
        refine ⟨⟨zeros, ?_⟩, hv⟩
        rw [Nat.toString_eq_repr, Nat.toList_repr, ← hzeros]
        exact toList_cases token
      · cases h
  · rintro ⟨hspells, hv⟩
    obtain ⟨zeros, hunsigned⟩ := unsigned_of_spells hspells
    have hempty : (List.replicate zeros '0' ++ Nat.toDigits 10 v).isEmpty = false :=
      List.isEmpty_eq_false_iff.2 (List.append_ne_nil_of_right_ne_nil _ Nat.toDigits_ne_nil)
    have hdigits : (List.replicate zeros '0' ++ Nat.toDigits 10 v).any (!·.isDigit) = false :=
      List.any_eq_false.2 fun c hc => by rw [isDigit_of_mem_zeros c hc]; decide
    rw [parseVersion?_eq, hunsigned, hempty, hdigits, ofDigitChars_zeros, if_pos hv]
    rfl

/-- A version that can be counted is read from its token. -/
theorem parseVersion?_toString {v : Nat} (h : v < UInt64.size) :
    parseVersion? (toString v) = some v := parseVersion?_eq_some_iff.2 ⟨.refl _, h⟩

/-- No token spells two versions. -/
theorem eq_of_spells {token : Token} {v w : Nat} (h : Spells token (toString v))
    (h' : Spells token (toString w)) : v = w := by
  obtain ⟨zeros, hv⟩ := unsigned_of_spells h
  obtain ⟨zeros', hw⟩ := unsigned_of_spells h'
  rw [← ofDigitChars_zeros zeros v, ← hv, hw, ofDigitChars_zeros]

/-- A version that is read from a token is the one that was written there. -/
theorem eq_of_parseVersion? {v w : Nat} (h : parseVersion? (toString v) = some w) : w = v :=
  eq_of_spells (parseVersion?_eq_some_iff.1 h).1 (.refl _)

theorem toString_injective : Function.Injective (toString : Nat → Token) :=
  fun v _ h => eq_of_spells (.refl (toString v)) (h ▸ .refl _)

end LeaseQueue.Store.Memory
