import LeaseQueue.Ascii
import LeaseQueue.Decimal.Shortest
import LeaseQueue.Json.Basic

/-!
# JSON text

The compact text of a value: no blanks, members in the order in which they stand.  A quote and a
backslash are escaped, so are control characters; everything else stands for itself.  A double is
written with the fewest digits that read back, always with a point or an exponent.
-/

namespace LeaseQueue.Json

/-- Doubles from `1e-5` up to below `1e16` are written without an exponent. -/
def doubleLayout : Decimal.Layout := ⟨some (-5), some 15⟩

/-- A control character has its short escape, or its number in four hexadecimal digits. -/
def escape (b : UInt8) : Bytes :=
  if b = Ascii.quote then Bytes.ofChars ['\\', '"']
  else if b = Ascii.backslash then Bytes.ofChars ['\\', '\\']
  else if 0x20 ≤ b then [b]
  else if b = 0x08 then Bytes.ofChars ['\\', 'b']
  else if b = 0x0C then Bytes.ofChars ['\\', 'f']
  else if b = 0x0A then Bytes.ofChars ['\\', 'n']
  else if b = 0x0D then Bytes.ofChars ['\\', 'r']
  else if b = 0x09 then Bytes.ofChars ['\\', 't']
  else Bytes.ofChars
    ['\\', 'u', '0', '0', Nat.digitChar (b.toNat / 16), Nat.digitChar (b.toNat % 16)]

def renderString (s : String) : Bytes :=
  Ascii.quote :: (Bytes.ofText s).flatMap escape ++ [Ascii.quote]

def renderNumber : Number → Bytes
  | .int i => Bytes.ofInt i
  | .double bits => Bytes.ofChars (doubleLayout.text bits)

mutual

def render : Json → Bytes
  | .null => Bytes.ofChars ['n', 'u', 'l', 'l']
  | .bool true => Bytes.ofChars ['t', 'r', 'u', 'e']
  | .bool false => Bytes.ofChars ['f', 'a', 'l', 's', 'e']
  | .num n => renderNumber n
  | .str s => renderString s
  | .arr [] => [Ascii.leftBracket, Ascii.rightBracket]
  | .arr (v :: rest) => Ascii.leftBracket :: render v ++ renderItems rest
  | .obj [] => [Ascii.leftBrace, Ascii.rightBrace]
  | .obj ((k, v) :: rest) =>
    Ascii.leftBrace :: renderString k ++ Ascii.colon :: render v ++ renderMembers rest

/-- The items after the first, and the closing bracket. -/
def renderItems : List Json → Bytes
  | [] => [Ascii.rightBracket]
  | v :: rest => Ascii.comma :: render v ++ renderItems rest

/-- The members after the first, and the closing brace. -/
def renderMembers : List (String × Json) → Bytes
  | [] => [Ascii.rightBrace]
  | (k, v) :: rest =>
    Ascii.comma :: renderString k ++ Ascii.colon :: render v ++ renderMembers rest

end

end LeaseQueue.Json
