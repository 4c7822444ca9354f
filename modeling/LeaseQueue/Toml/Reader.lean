/-!
# Reading characters

A reader takes characters from the front of a text or fails.  `many` reads items until one of them
says that it was not there; an item that was there has taken a character at least, so that the length
of the text bounds their number.
-/

namespace LeaseQueue.Toml

abbrev Reader := StateT (List Char) Option

namespace Reader

/-- The next character, which stays. -/
def peek? : Reader (Option Char) := return (← get).head?

/-- Takes the next character. -/
def next : Reader Char := do
  match ← get with
  | [] => failure
  | c :: rest =>
    set rest
    return c

/-- Takes a character if it is the next. -/
def accept (c : Char) : Reader Bool := do
  match ← get with
  | [] => return false
  | d :: rest =>
    if d = c then
      set rest
      return true
    else return false

/-- Takes characters if they are the next. -/
def acceptAll (cs : List Char) : Reader Bool := do
  let s ← get
  if s.take cs.length = cs then
    set (s.drop cs.length)
    return true
  else return false

def expect (c : Char) : Reader Unit := do guard (← accept c)

def expectAll (cs : List Char) : Reader Unit := do guard (← acceptAll cs)

/-- Takes a character of a class. -/
def oneOf (p : Char → Bool) : Reader Char := do
  let c ← next
  guard (p c)
  return c

/-- Takes the characters of a class up to the first other one. -/
def takeWhile (p : Char → Bool) : Reader (List Char) := do
  let s ← get
  set (s.dropWhile p)
  return s.takeWhile p

/-- Takes so many characters. -/
def take (n : Nat) : Reader (List Char) := do
  let s ← get
  guard (n ≤ s.length)
  set (s.drop n)
  return s.take n

/-- The text that a reader takes. -/
def consumed {α : Type} (r : Reader α) : Reader String := do
  let before ← get
  let _ ← r
  return String.ofList (before.take (before.length - (← get).length))

/-- At most so many items. -/
def upTo {α : Type} (item? : Reader (Option α)) : Nat → Reader (List α)
  | 0 => return []
  | n + 1 => do
    match ← item? with
    | none => return []
    | some a => return a :: (← upTo item? n)

def many {α : Type} (item? : Reader (Option α)) : Reader (List α) := do
  upTo item? (← get).length

/-- Items with a mark between them, at least one. -/
def separated {α : Type} (mark : Char) (item : Reader α) : Reader (List α) := do
  let first ← item
  let others ← many do
    if ← accept mark then return some (← item) else return none
  return first :: others

/-! ## Blanks, comments and ends of lines -/

/-- A character that may stand in comments and quoted texts. -/
def isPlain (c : Char) : Bool := c = '\t' || (0x20 ≤ c.toNat && c.toNat ≠ 0x7F)

def isBlank (c : Char) : Bool := c = ' ' || c = '\t'

def skipBlanks : Reader Unit := do
  let _ ← takeWhile isBlank

/-- Takes the end of a line, with or without a carriage return. -/
def acceptNewline : Reader Bool := do
  if ← accept '\n' then return true else acceptAll ['\r', '\n']

/-- Takes a comment without the end of its line. -/
def acceptComment : Reader Bool := do
  if ← accept '#' then
    let _ ← takeWhile isPlain
    return true
  else return false

/-- What may follow on a line: blanks, a comment, and the end of the line or of the text. -/
def endLine : Reader Unit := do
  skipBlanks
  let _ ← acceptComment
  unless ← acceptNewline do guard (← get).isEmpty

/-- Blanks, comments and ends of lines, inside an array. -/
def skipLines : Reader Unit := do
  let _ ← many do
    skipBlanks
    if ← acceptComment then
      guard (← acceptNewline)
      return some ()
    else if ← acceptNewline then return some () else return none

end Reader

end LeaseQueue.Toml
