import LeaseQueue.Bytes
import LeaseQueue.Json.Basic
import LeaseQueue.Toml.Reader

/-!
# Values without parts

Quoted texts of four kinds, truth values, integers, floating-point numbers and moments in time.

Double quotes admit escapes, single quotes do not; three of a kind enclose a text of several lines.
Digits may be grouped by single underscores.  An integer fits into 64 bits with its sign.  A moment
is an object with its date, its time and its offset, null where it does not say.
-/

namespace LeaseQueue.Toml

open Reader

/-! ## Digits -/

def isDigit (c : Char) : Bool := '0' ≤ c && c ≤ '9'
def isOctalDigit (c : Char) : Bool := '0' ≤ c && c ≤ '7'
def isBinaryDigit (c : Char) : Bool := c = '0' || c = '1'
def isHexDigit (c : Char) : Bool := isDigit c || ('a' ≤ c && c ≤ 'f') || ('A' ≤ c && c ≤ 'F')

/-- The number that digits spell in a base. -/
def spelled (base : Nat) (digits : List Char) : Nat :=
  digits.foldl (fun n c => base * n + (Bytes.hexValue? (Bytes.ofChar c)).getD 0) 0

/-! ## Quoted texts -/

/-- The character whose code point is given by so many hexadecimal digits. -/
def codePoint (count : Nat) : Reader Char := do
  let digits ← take count
  guard (digits.all isHexDigit)
  let n := spelled 16 digits
  guard (Nat.isValidChar n)
  return Char.ofNat n

/-- What an escape stands for, after its backslash. -/
def escape : Reader Char := do
  match ← next with
  | '"' => return '"'
  | '\\' => return '\\'
  | 'b' => return '\x08'
  | 'f' => return '\x0c'
  | 'n' => return '\n'
  | 'r' => return '\r'
  | 't' => return '\t'
  | 'u' => codePoint 4
  | 'U' => codePoint 8
  | _ => failure

/-- A character between double quotes, unless the text ends here. -/
def basicChar? : Reader (Option Char) := do
  if (← peek?) = some '"' then return none
  let c ← oneOf isPlain
  if c = '\\' then return some (← escape) else return some c

/-- A text in double quotes. -/
def basicText : Reader String := do
  expect '"'
  let body ← many basicChar?
  expect '"'
  return String.ofList body

/-- A text in single quotes. -/
def literalText : Reader String := do
  expect '\''
  let body ← takeWhile fun c => isPlain c && c ≠ '\''
  expect '\''
  return String.ofList body

/-- A piece of a text of several lines: the end of a line or one character. -/
def literalPiece : Reader (List Char) := do
  if ← acceptNewline then return ['\n'] else return [← oneOf isPlain]

/-- The same with escapes.  A backslash at the end of a line joins it to the next that is not
blank. -/
def basicPiece : Reader (List Char) := do
  if ← accept '\\' then
    let s ← get
    skipBlanks
    if ← acceptNewline then
      let _ ← many do
        if ← acceptNewline then return some ()
        else if ((← peek?).any isBlank) then return some (← skipBlanks)
        else return none
      return []
    else
      set s
      return [← escape]
  else literalPiece

/-- A piece, or quotes that are not yet those at the end. -/
def linesPiece? (quote : Char) (piece : Reader (List Char)) : Reader (Option (List Char)) := do
  let quotes := (← get).takeWhile (· = quote)
  if 3 ≤ quotes.length then return none
  else if quotes.isEmpty then return some (← piece)
  else return some (← takeWhile (· = quote))

/-- A text of several lines.  The end of a line right after the opening quotes does not count; one or
two quotes before the closing ones do. -/
def linesText (quote : Char) (piece : Reader (List Char)) : Reader String := do
  expectAll [quote, quote, quote]
  let _ ← acceptNewline
  let pieces ← many (linesPiece? quote piece)
  let quotes ← takeWhile (· = quote)
  guard (3 ≤ quotes.length ∧ quotes.length ≤ 5)
  return String.ofList (pieces.flatten ++ quotes.drop 3)

/-- A text in quotes of any kind. -/
def text : Reader String := do
  match ← get with
  | '"' :: '"' :: '"' :: _ => linesText '"' basicPiece
  | '\'' :: '\'' :: '\'' :: _ => linesText '\'' literalPiece
  | '"' :: _ => basicText
  | _ => literalText

/-! ## Numbers -/

/-- Digits, and single underscores between them. -/
def digits (isDigit : Char → Bool) : Reader (List Char) := do
  let first ← oneOf isDigit
  let others ← many do
    if ← accept '_' then return some (← oneOf isDigit)
    match ← peek? with
    | some c => if isDigit c then return some (← next) else return none
    | none => return none
  return first :: others

/-- An integer that fits into 64 bits. -/
def integerOf (i : Int) : Reader Json := do
  guard (Int64.minValue.toInt ≤ i ∧ i ≤ Int64.maxValue.toInt)
  return .num (.int i)

/-- An integer in another base, after the letter that names it. -/
def based (base : Nat) (isDigit : Char → Bool) : Reader Json := do
  integerOf (spelled base (← digits isDigit))

/-- Whether a minus sign was there; a plus sign says nothing. -/
def sign : Reader Bool := do
  if ← accept '-' then return true
  let _ ← accept '+'
  return false

def signed (negative : Bool) (f : Float) : Json :=
  .num (.double (if negative then -f else f).toBits)

/-- The double nearest to `significand * 10 ^ exponent`; powers far beyond all doubles are not
computed. -/
def nearest (significand : Nat) (exponent : Int) : Float :=
  let lead := (Nat.log2 significand : Int) * 30103 / 100000 + exponent
  if significand = 0 ∨ lead < -400 then 0
  else if 400 < lead then 1 / 0
  else Float.ofScientific significand (exponent < 0) exponent.natAbs

/-- The exponent, if there is one. -/
def exponent? : Reader (Option Int) := do
  unless (← peek?).any fun c => c = 'e' || c = 'E' do return none
  let _ ← next
  let negative ← sign
  let size : Int := spelled 10 (← digits isDigit)
  return some (if negative then -size else size)

/-- A decimal number; a positive one must not exceed all doubles. -/
def decimal (negative : Bool) : Reader Json := do
  let whole ← if ← accept '0' then pure ['0'] else digits isDigit
  let fraction ← if ← accept '.' then some <$> digits isDigit else pure none
  let exponent ← exponent?
  match fraction, exponent with
  | none, none =>
    let size : Int := spelled 10 whole
    integerOf (if negative then -size else size)
  | _, _ =>
    let places := fraction.getD []
    let f := nearest (spelled 10 (whole ++ places)) (exponent.getD 0 - places.length)
    guard (negative || !f.isInf)
    return signed negative f

def number : Reader Json := do
  if ← acceptAll ['0', 'x'] then based 16 isHexDigit
  else if ← acceptAll ['0', 'o'] then based 8 isOctalDigit
  else if ← acceptAll ['0', 'b'] then based 2 isBinaryDigit
  else
    let negative ← sign
    if ← acceptAll ['i', 'n', 'f'] then return signed negative (1 / 0)
    else if ← acceptAll ['n', 'a', 'n'] then return signed negative (0 / 0)
    else decimal negative

/-! ## Moments -/

/-- A number of so many digits between bounds. -/
def counter (count low high : Nat) : Reader Nat := do
  let digits ← take count
  guard (digits.all isDigit)
  let n := spelled 10 digits
  guard (low ≤ n ∧ n ≤ high)
  return n

/-- The days of a month of the Gregorian calendar. -/
def daysIn (year month : Nat) : Nat :=
  if month = 2 then
    if year % 4 = 0 ∧ (year % 100 ≠ 0 ∨ year % 400 = 0) then 29 else 28
  else if month ∈ [4, 6, 9, 11] then 30
  else 31

def date : Reader Unit := do
  let year ← counter 4 0 9999
  expect '-'
  let month ← counter 2 1 12
  expect '-'
  let _ ← counter 2 1 (daysIn year month)

/-- Hours, minutes and seconds; a minute may have a leap second. -/
def clockTime : Reader Unit := do
  let _ ← counter 2 0 23
  expect ':'
  let _ ← counter 2 0 59
  expect ':'
  let _ ← counter 2 0 60
  if ← accept '.' then
    let _ ← oneOf isDigit
    let _ ← takeWhile isDigit

/-- The distance from universal time. -/
def offset : Reader Unit := do
  let c ← next
  if c = 'Z' ∨ c = 'z' then return ()
  guard (c = '+' ∨ c = '-')
  let _ ← counter 2 0 23
  expect ':'
  let _ ← counter 2 0 59

def momentOf (date time offset : Option String) : Json := .obj [
  ("date", date.elim .null .str),
  ("time", time.elim .null .str),
  ("offset", offset.elim .null .str)]

/-- The time after a date, with its offset. -/
def timeOfDay : Reader (String × Option String) := do
  let _ ← oneOf fun c => c = 'T' || c = 't' || c = ' '
  let time ← consumed clockTime
  return (time, ← optional (consumed offset))

def datedMoment : Reader Json := do
  let day ← consumed date
  match ← optional timeOfDay with
  | none => return momentOf (some day) none none
  | some (time, offset) => return momentOf (some day) (some time) offset

def moment : Reader Json :=
  datedMoment <|> do return momentOf none (some (← consumed clockTime)) none

/-! ## All of them -/

def scalar : Reader Json := do
  match ← peek? with
  | some '"' | some '\'' => return .str (← text)
  | some 't' =>
    expectAll ['t', 'r', 'u', 'e']
    return .bool true
  | some 'f' =>
    expectAll ['f', 'a', 'l', 's', 'e']
    return .bool false
  | _ => moment <|> number

end LeaseQueue.Toml
