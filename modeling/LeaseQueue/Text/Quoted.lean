import LeaseQueue.Text.Printable

/-!
# Texts in diagnostics

A text is shown between double quotes on one line: quotes and backslashes are escaped, line ends and
tabulators have short escapes, and whatever else cannot be shown is given by its code point.
-/

namespace LeaseQueue.Text

def lowerHex (n : Nat) : List Char := Nat.toDigits 16 n

/-- A character as it stands between double quotes. -/
def quoteChar (c : Char) : List Char :=
  if c = '"' then ['\\', '"']
  else if c = '\\' then ['\\', '\\']
  else if c = '\x00' then ['\\', '0']
  else if c = '\t' then ['\\', 't']
  else if c = '\n' then ['\\', 'n']
  else if c = '\r' then ['\\', 'r']
  else if isShown c then [c]
  else ['\\', 'u', '\x7b'] ++ lowerHex c.toNat ++ ['\x7d']

def quoted (s : String) : String :=
  String.ofList ('"' :: s.toList.flatMap quoteChar ++ ['"'])

end LeaseQueue.Text
