import LeaseQueue.Ascii
import LeaseQueue.Json.Basic
import LeaseQueue.Mismatch

/-!
# Reading JSON text

A reader takes octets from the front and gives back the rest.  It stops at the first fault, which is
one of three: the text ended inside a value, it is no JSON, or a value does not fit the type it is
read as.  The order matters: a value of the wrong kind is reported where it stands, before anything
that is wrong further on.

`read depth` admits at most `depth` arrays and objects inside one another.  `skip` passes over a
value that nobody wants; it has no such limit and looks neither at the encoding of strings nor at
the range of numbers.
-/

namespace LeaseQueue

inductive ReadError where
  /-- The text ended inside a value. -/
  | ended
  | malformed
  | mismatch (cause : Mismatch)
deriving DecidableEq, Repr

/-- What was read, and the octets after it. -/
abbrev Reading (α : Type) := Except ReadError (α × Bytes)

namespace Json

def skipSpace (s : Bytes) : Bytes := s.dropWhile Ascii.isSpace

/-- Exactly these octets. -/
def expect : Bytes → Bytes → Except ReadError Bytes
  | [], s => .ok s
  | _ :: _, [] => .error .ended
  | x :: xs, b :: s => if b = x then expect xs s else .error .malformed

/-! ## Strings -/

/-- The octet that a backslash and this octet stand for. -/
def plainEscape? (e : UInt8) : Option UInt8 :=
  if e = Ascii.quote ∨ e = Ascii.backslash ∨ e = Bytes.ofChar '/' then some e
  else if e = Bytes.ofChar 'b' then some 0x08
  else if e = Bytes.ofChar 'f' then some 0x0C
  else if e = Bytes.ofChar 'n' then some 0x0A
  else if e = Bytes.ofChar 'r' then some 0x0D
  else if e = Bytes.ofChar 't' then some 0x09
  else none

/-- The number that four hexadecimal digits spell. -/
def hexQuad? (a b c d : UInt8) : Option Nat := do
  let a ← Bytes.hexValue? a
  let b ← Bytes.hexValue? b
  let c ← Bytes.hexValue? c
  let d ← Bytes.hexValue? d
  return ((a * 16 + b) * 16 + c) * 16 + d

def isHighSurrogate (n : Nat) : Bool := 0xD800 ≤ n && n < 0xDC00
def isLowSurrogate (n : Nat) : Bool := 0xDC00 ≤ n && n < 0xE000

/-- The code point of a pair of surrogates. -/
def joinSurrogates (high low : Nat) : Nat := (high - 0xD800) * 0x400 + (low - 0xDC00) + 0x10000

/-- The octets of a code point. -/
def ofCodePoint (n : Nat) : Bytes := Bytes.ofText (String.singleton (Char.ofNat n))

/-- Puts octets in front of what is read. -/
def prepend (octets : Bytes) : Reading Bytes → Reading Bytes
  | .ok (body, rest) => .ok (octets ++ body, rest)
  | .error e => .error e

/-- The octets of a string up to its closing quote, escapes resolved. -/
def readBody : Bytes → Reading Bytes
  | [] => .error .ended
  | b :: s =>
    if b = Ascii.quote then .ok ([], s)
    else if b = Ascii.backslash then
      match s with
      | [] => .error .ended
      | e :: s =>
        match plainEscape? e with
        | some octet => prepend [octet] (readBody s)
        | none =>
          if e = Bytes.ofChar 'u' then
            match s with
            | a :: b :: c :: d :: s =>
              match hexQuad? a b c d with
              | none => .error .malformed
              | some n =>
                if isLowSurrogate n then .error .malformed
                else if isHighSurrogate n then
                  match s with
                  | [] => .error .ended
                  | x :: s =>
                    if x = Ascii.backslash then
                      match s with
                      | [] => .error .ended
                      | y :: s =>
                        if y = Bytes.ofChar 'u' then
                          match s with
                          | a :: b :: c :: d :: s =>
                            match hexQuad? a b c d with
                            | none => .error .malformed
                            | some m =>
                              if isLowSurrogate m then
                                prepend (ofCodePoint (joinSurrogates n m)) (readBody s)
                              else .error .malformed
                          | _ => .error .ended
                        else .error .malformed
                    else .error .malformed
                else prepend (ofCodePoint n) (readBody s)
            | _ => .error .ended
          else .error .malformed
    else if b < 0x20 then .error .malformed
    else prepend [b] (readBody s)

/-- A string whose opening quote has been taken. -/
def readString (s : Bytes) : Reading String :=
  match readBody s with
  | .error e => .error e
  | .ok (body, rest) =>
    match Bytes.toText? body with
    | some text => .ok (text, rest)
    | none => .error .malformed

/-! ## Numbers -/

/-- The parts of a number as it is written. -/
structure Numeral where
  negative : Bool
  whole : Bytes
  fraction : Option Bytes
  /-- Whether the exponent is negative, and its digits. -/
  exponent : Option (Bool × Bytes)
deriving DecidableEq, Repr

/-- A row of digits; `atEnd` is the fault of a text that ends before the first of them. -/
def readDigits (atEnd : ReadError) (s : Bytes) : Reading Bytes :=
  match s with
  | [] => .error atEnd
  | b :: _ =>
    if Bytes.isDigit b then .ok (s.takeWhile Bytes.isDigit, s.dropWhile Bytes.isDigit)
    else .error .malformed

/-- The digits before the point: a zero stands alone. -/
def readWhole (atEnd : ReadError) (s : Bytes) : Reading Bytes :=
  match s with
  | Ascii.zero :: b :: rest =>
    if Bytes.isDigit b then .error .malformed else .ok ([Ascii.zero], b :: rest)
  | _ => readDigits atEnd s

def readFraction (atEnd : ReadError) (s : Bytes) : Reading (Option Bytes) :=
  match s with
  | [] => .ok (none, [])
  | b :: rest =>
    if b = Ascii.point then (readDigits atEnd rest).map fun (digits, rest) => (some digits, rest)
    else .ok (none, b :: rest)

def readExponent (atEnd : ReadError) (s : Bytes) : Reading (Option (Bool × Bytes)) :=
  match s with
  | [] => .ok (none, [])
  | b :: rest =>
    if Ascii.isExponentMark b then
      let (negative, rest) := match rest with
        | Ascii.minus :: t => (true, t)
        | Ascii.plus :: t => (false, t)
        | t => (false, t)
      (readDigits atEnd rest).map fun (digits, rest) => (some (negative, digits), rest)
    else .ok (none, b :: rest)

def readNumeral (atEnd : ReadError) (s : Bytes) : Except ReadError (Numeral × Bytes) := do
  let (negative, s) := match s with
    | Ascii.minus :: t => (true, t)
    | t => (false, t)
  let (whole, s) ← readWhole atEnd s
  let (fraction, s) ← readFraction atEnd s
  let (exponent, s) ← readExponent atEnd s
  return (⟨negative, whole, fraction, exponent⟩, s)

namespace Numeral

/-- Takes digits into the significand as long as it stays below `2 ^ 64`; gives the significand and
the number of digits left out. -/
def packWhole (n : Nat) : Bytes → Nat × Nat
  | [] => (n, 0)
  | b :: rest =>
    if 10 * n + Bytes.digitValue b < UInt64.size then packWhole (10 * n + Bytes.digitValue b) rest
    else (n, rest.length + 1)

/-- The same for the digits after the point; gives the significand and the number of digits taken
in. -/
def packFraction (n : Nat) : Bytes → Nat × Nat
  | [] => (n, 0)
  | b :: rest =>
    if 10 * n + Bytes.digitValue b < UInt64.size then
      let (m, taken) := packFraction (10 * n + Bytes.digitValue b) rest
      (m, taken + 1)
    else (n, 0)

def powerOfTen (n : Nat) : Float := Float.ofScientific 1 false n

/-- Divides by a power of ten, in steps that are doubles. -/
def scaleDown (f : Float) (n : Nat) : Float :=
  if n ≤ 308 then f / powerOfTen n
  else if f == 0 then f
  else scaleDown (f / powerOfTen 308) (n - 308)
termination_by n

/-- Multiplies by a power of ten; `none` if that leaves the doubles. -/
def scaleUp? (f : Float) (n : Nat) : Option Float :=
  if n ≤ 308 then
    let g := f * powerOfTen n
    if g.isInf then none else some g
  else if f == 0 then some f else none

/-- The double `significand * 10 ^ exponent`, as the arithmetic of doubles gives it. -/
def toDouble? (significand : Nat) (exponent : Int) : Option Float :=
  let f := (UInt64.ofNat significand).toFloat
  if 0 ≤ exponent then scaleUp? f exponent.toNat else some (scaleDown f exponent.natAbs)

def signed (negative : Bool) (f : Float) : Number :=
  .double (if negative then -f else f).toBits

/-- An exponent of more than this is not computed with. -/
def maxExponent : Nat := 0x7FFFFFFF

/-- The number that is written: an integer if it has neither point nor exponent and fits into 64
bits with its sign; a negative zero is a double. -/
def value (n : Numeral) : Except ReadError Number :=
  let (significand, omitted) := packWhole 0 n.whole
  match n.fraction, n.exponent with
  | none, none =>
    if omitted = 0 ∧ n.negative = false then .ok (.int significand)
    else if omitted = 0 ∧ 0 < significand ∧ significand ≤ 0x8000000000000000 then .ok (.int (-significand))
    else double n.negative significand omitted
  | fraction, exponent =>
    let (significand, taken) := packFraction significand (fraction.getD [])
    let start : Int := (omitted : Int) - (taken : Int)
    match exponent with
    | none => double n.negative significand start
    | some (negative, digits) =>
      let size := Bytes.toNat 0 digits
      if maxExponent < size then
        if negative ∨ significand = 0 then .ok (signed n.negative 0) else .error .malformed
      else double n.negative significand (if negative then start - size else start + size)
where
  double (negative : Bool) (significand : Nat) (exponent : Int) : Except ReadError Number :=
    match toDouble? significand exponent with
    | some f => .ok (signed negative f)
    | none => .error .malformed

end Numeral

def readNumber (s : Bytes) : Reading Number :=
  match readNumeral .ended s with
  | .error e => .error e
  | .ok (numeral, rest) => numeral.value.map (·, rest)

/-! ## Values -/

/-- A value without parts.  Of an array or an object nothing is taken, and it counts as empty. -/
def readFlat (s : Bytes) : Reading Json :=
  match s with
  | [] => .error .ended
  | b :: rest =>
    if b = Bytes.ofChar 'n' then (expect (Bytes.ofChars ['u', 'l', 'l']) rest).map (.null, ·)
    else if b = Bytes.ofChar 't' then
      (expect (Bytes.ofChars ['r', 'u', 'e']) rest).map (.bool true, ·)
    else if b = Bytes.ofChar 'f' then
      (expect (Bytes.ofChars ['a', 'l', 's', 'e']) rest).map (.bool false, ·)
    else if b = Ascii.minus ∨ Bytes.isDigit b then
      (readNumber s).map fun (n, rest) => (.num n, rest)
    else if b = Ascii.quote then (readString rest).map fun (text, rest) => (.str text, rest)
    else if b = Ascii.leftBracket then .ok (.arr [], s)
    else if b = Ascii.leftBrace then .ok (.obj [], s)
    else .error .malformed

/-- Whether another item follows, and the octets from it or from the closing bracket on. -/
def nextItem (first : Bool) (s : Bytes) : Reading Bool :=
  match skipSpace s with
  | [] => .error .ended
  | b :: rest =>
    if b = Ascii.rightBracket then .ok (false, b :: rest)
    else if first then .ok (true, b :: rest)
    else if b = Ascii.comma then
      match skipSpace rest with
      | [] => .error .ended
      | c :: rest => if c = Ascii.rightBracket then .error .malformed else .ok (true, c :: rest)
    else .error .malformed

/-- The key of the next member, if another follows. -/
def nextKey (first : Bool) (s : Bytes) : Reading (Option String) :=
  match skipSpace s with
  | [] => .error .ended
  | b :: rest =>
    if b = Ascii.rightBrace then .ok (none, b :: rest)
    else if first then key (b :: rest)
    else if b = Ascii.comma then key (skipSpace rest)
    else .error .malformed
where
  key (s : Bytes) : Reading (Option String) :=
    match s with
    | [] => .error .ended
    | b :: rest =>
      if b = Ascii.quote then (readString rest).map fun (k, rest) => (some k, rest)
      else .error .malformed

/-- A sign that has to stand here. -/
def mark (b : UInt8) (s : Bytes) : Except ReadError Bytes := expect [b] (skipSpace s)

/-- The value after the colon of a member. -/
def afterColon {α : Type} (value : Bytes → Reading α) (s : Bytes) : Reading α :=
  match mark Ascii.colon s with
  | .error e => .error e
  | .ok s => value s

/-- Takes in items up to the closing bracket.  Every item has at least one octet, so that the length
of the text bounds their number. -/
def foldItems {σ : Type} (item : σ → Bytes → Reading σ) :
    Nat → Bool → σ → Bytes → Reading σ
  | 0, _, _, _ => .error .malformed
  | n + 1, first, acc, s =>
    match nextItem first s with
    | .error e => .error e
    | .ok (false, s) => .ok (acc, s)
    | .ok (true, s) =>
      match item acc s with
      | .error e => .error e
      | .ok (acc, s) => foldItems item n false acc s

/-- Takes in members up to the closing brace; `member` is given the key and the octets after it. -/
def foldMembers {σ : Type} (member : σ → String → Bytes → Reading σ) :
    Nat → Bool → σ → Bytes → Reading σ
  | 0, _, _, _ => .error .malformed
  | n + 1, first, acc, s =>
    match nextKey first s with
    | .error e => .error e
    | .ok (none, s) => .ok (acc, s)
    | .ok (some key, s) =>
      match member acc key s with
      | .error e => .error e
      | .ok (acc, s) => foldMembers member n false acc s

/-- An array whose opening bracket has been taken. -/
def readItems {σ : Type} (item : σ → Bytes → Reading σ) (start : σ) (s : Bytes) :
    Except ReadError (σ × Bytes) := do
  let (acc, s) ← foldItems item (s.length + 1) true start s
  let s ← mark Ascii.rightBracket s
  return (acc, s)

/-- An object whose opening brace has been taken. -/
def readMembers {σ : Type} (member : σ → String → Bytes → Reading σ) (start : σ) (s : Bytes) :
    Except ReadError (σ × Bytes) := do
  let (acc, s) ← foldMembers member (s.length + 1) true start s
  let s ← mark Ascii.rightBrace s
  return (acc, s)

/-- Any value, its members as they stand in the text. -/
def read : Nat → Bytes → Reading Json
  | 0, s =>
    match skipSpace s with
    | [] => .error .ended
    | b :: rest =>
      if b = Ascii.leftBracket ∨ b = Ascii.leftBrace then .error .malformed
      else readFlat (b :: rest)
  | depth + 1, s =>
    match skipSpace s with
    | [] => .error .ended
    | b :: rest =>
      if b = Ascii.leftBracket then
        (readItems (fun items s => (read depth s).map fun (v, s) => (v :: items, s)) [] rest).map
          fun (items, s) => (.arr items.reverse, s)
      else if b = Ascii.leftBrace then
        (readMembers
          (fun members key s =>
            (afterColon (read depth) s).map fun (v, s) => ((key, v) :: members, s)) [] rest).map
          fun (members, s) => (.obj members.reverse, s)
      else readFlat (b :: rest)

/-! ## Passing over a value -/

/-- To the end of a string whose opening quote has been taken. -/
def skipBody : Bytes → Except ReadError Bytes
  | [] => .error .ended
  | b :: s =>
    if b = Ascii.quote then .ok s
    else if b = Ascii.backslash then
      match s with
      | [] => .error .ended
      | e :: s =>
        if (plainEscape? e).isSome then skipBody s
        else if e = Bytes.ofChar 'u' then
          match s with
          | a :: b :: c :: d :: s =>
            if (hexQuad? a b c d).isSome then skipBody s else .error .malformed
          | _ => .error .ended
        else .error .malformed
    else if b < 0x20 then .error .malformed
    else skipBody s

/-- A value without parts. -/
def skipFlat (s : Bytes) : Except ReadError Bytes :=
  match s with
  | [] => .error .ended
  | b :: rest =>
    if b = Bytes.ofChar 'n' then expect (Bytes.ofChars ['u', 'l', 'l']) rest
    else if b = Bytes.ofChar 't' then expect (Bytes.ofChars ['r', 'u', 'e']) rest
    else if b = Bytes.ofChar 'f' then expect (Bytes.ofChars ['a', 'l', 's', 'e']) rest
    else if b = Ascii.minus ∨ Bytes.isDigit b then (readNumeral .malformed s).map (·.2)
    else if b = Ascii.quote then skipBody rest
    else .error .malformed

/-- A key with its colon. -/
def skipKey (s : Bytes) : Except ReadError Bytes :=
  match skipSpace s with
  | [] => .error .ended
  | b :: rest =>
    if b = Ascii.quote then do mark Ascii.colon (← skipBody rest) else .error .malformed

/-- What is open around a value that is passed over. -/
inductive Frame where
  | array
  | object
deriving DecidableEq, Repr

/-- Passes over a value if `atValue`, else over what follows one, until no frame is open. -/
def skipLoop : Nat → Bool → List Frame → Bytes → Except ReadError Bytes
  | 0, _, _, _ => .error .malformed
  | n + 1, true, frames, s =>
    match skipSpace s with
    | [] => .error .ended
    | b :: rest =>
      if b = Ascii.leftBracket then
        match skipSpace rest with
        | [] => .error .ended
        | c :: rest =>
          if c = Ascii.rightBracket then skipLoop n false frames rest
          else skipLoop n true (.array :: frames) (c :: rest)
      else if b = Ascii.leftBrace then
        match skipSpace rest with
        | [] => .error .ended
        | c :: rest =>
          if c = Ascii.rightBrace then skipLoop n false frames rest
          else do skipLoop n true (.object :: frames) (← skipKey (c :: rest))
      else do skipLoop n false frames (← skipFlat (b :: rest))
  | _ + 1, false, [], s => .ok s
  | n + 1, false, frame :: frames, s =>
    match skipSpace s with
    | [] => .error .ended
    | b :: rest =>
      match frame with
      | .array =>
        if b = Ascii.comma then skipLoop n true (.array :: frames) rest
        else if b = Ascii.rightBracket then skipLoop n false frames rest
        else .error .malformed
      | .object =>
        if b = Ascii.comma then do skipLoop n true (.object :: frames) (← skipKey rest)
        else if b = Ascii.rightBrace then skipLoop n false frames rest
        else .error .malformed

/-- Every round takes at least one octet, the last one apart. -/
def skip (s : Bytes) : Except ReadError Bytes := skipLoop (s.length + 1) true [] s

/-! ## Whole texts -/

/-- How many arrays and objects may stand inside one another in a text. -/
def maxNesting : Nat := 127

/-- A value with nothing but blanks after it. -/
def whole {α : Type} (reader : Bytes → Reading α) (s : Bytes) : Except ReadError α :=
  match reader s with
  | .error e => .error e
  | .ok (v, rest) => if (skipSpace rest).isEmpty then .ok v else .error .malformed

/-- The value of a text, its objects sorted. -/
def parse (s : Bytes) : Except ReadError Json := (whole (read maxNesting) s).map normalize

end Json

end LeaseQueue
