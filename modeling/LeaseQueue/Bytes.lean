/-!
# Bytes

Documents, objects and requests are lists of octets.  A text is written as its UTF-8 octets and
read back from them; octets that are not UTF-8 are no text.

    Bytes.toText? (Bytes.ofText s) = some s        (toText?_ofText)
-/

namespace LeaseQueue

abbrev Bytes := List UInt8

namespace Bytes

/-! ## Text -/

/-- The UTF-8 octets of a text. -/
def ofText (s : String) : Bytes := s.toByteArray.data.toList

/-- The text with these UTF-8 octets, if there is one. -/
def toText? (b : Bytes) : Option String := String.fromUTF8? ⟨b.toArray⟩

theorem toText?_ofText (s : String) : toText? (ofText s) = some s := by
  have h : (⟨(ofText s).toArray⟩ : ByteArray) = s.toByteArray := by simp [ofText]
  have hv : ByteArray.IsValidUTF8 ⟨(ofText s).toArray⟩ := h ▸ s.isValidUTF8
  simp only [toText?, String.fromUTF8?, dif_pos hv, Option.some.injEq]
  simp [String.fromUTF8, h]

/-- The octet of an ASCII character. -/
def ofChar (c : Char) : UInt8 := c.toNat.toUInt8

/-- The octets of a text of ASCII characters. -/
def ofChars (cs : List Char) : Bytes := cs.map ofChar

/-! ## Decimal digits -/

/-- Decimal digits without leading zeros. -/
def ofNat (n : Nat) : Bytes := ofChars (Nat.toDigits 10 n)

/-- A minus sign for a negative number, then the digits. -/
def ofInt (i : Int) : Bytes := if i < 0 then ofChar '-' :: ofNat i.natAbs else ofNat i.natAbs

def isDigit (b : UInt8) : Bool := 0x30 ≤ b && b ≤ 0x39

/-- The value of a digit's octet. -/
def digitValue (b : UInt8) : Nat := b.toNat - 0x30

/-- The number that a row of digits spells, read from the left onto `n`. -/
def toNat (n : Nat) (digits : Bytes) : Nat := digits.foldl (fun k b => 10 * k + digitValue b) n

/-! ## Hexadecimal -/

/-- The value of a hexadecimal digit of either case. -/
def hexValue? (b : UInt8) : Option Nat :=
  if isDigit b then some (b.toNat - 0x30)
  else if 0x61 ≤ b && b ≤ 0x66 then some (b.toNat - 0x61 + 10)
  else if 0x41 ≤ b && b ≤ 0x46 then some (b.toNat - 0x41 + 10)
  else none

/-- Two lower-case hexadecimal digits for each octet. -/
def toHex (b : Bytes) : String :=
  String.ofList (b.flatMap fun x => [Nat.digitChar (x.toNat / 16), Nat.digitChar (x.toNat % 16)])

/-- The octets that a row of hexadecimal pairs spells. -/
def ofHex? : List Char → Option Bytes
  | [] => some []
  | [_] => none
  | h :: l :: rest => do
    let high ← hexValue? (ofChar h)
    let low ← hexValue? (ofChar l)
    let tail ← ofHex? rest
    return (16 * high + low).toUInt8 :: tail

end Bytes

end LeaseQueue
