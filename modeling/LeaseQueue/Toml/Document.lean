import LeaseQueue.Toml.Scalar
import LeaseQueue.Toml.Table

/-!
# TOML texts

A text is a sequence of lines: a key with its value, a header, or nothing.  Its value is an object,
the members in the order in which they were defined.

Arrays go over several lines, inline tables do not.
-/

namespace LeaseQueue.Toml

open Reader

/-- How many arrays and inline tables may stand inside one another. -/
def maxNesting : Nat := 79

/-- How many names a dotted key may have. -/
def maxNames : Nat := 79

/-! ## Keys -/

def isBare (c : Char) : Bool := c.isAlphanum || c = '_' || c = '-'

def bareName : Reader String := do
  let first ← oneOf isBare
  return String.ofList (first :: (← takeWhile isBare))

/-- One name, and the blanks around it. -/
def name : Reader String := do
  skipBlanks
  let name ← match ← peek? with
    | some '"' => basicText
    | some '\'' => literalText
    | _ => bareName
  skipBlanks
  return name

/-- A dotted key: the path to a table and the name in it. -/
def key : Reader (List String × String) := do
  let names ← separated '.' name
  guard (names.length ≤ maxNames)
  return (names.dropLast, names.getLastD "")

/-! ## Values -/

/-- An item of an array with its comma, unless the array ends here. -/
def item? (value : Reader Json) : Reader (Option Json) := do
  skipLines
  if (← peek?) = some ']' then return none
  let v ← value
  skipLines
  unless ← accept ',' do guard ((← peek?) = some ']')
  return some v

def array (value : Reader Json) : Reader Json := do
  expect '['
  let items ← many (item? value)
  expect ']'
  return .arr items

/-- A key and its value. -/
def entry (value : Reader Json) : Reader (List String × String × Json) := do
  let (path, name) ← key
  expect '='
  skipBlanks
  return (path, name, ← value)

def inlineTable (value : Reader Json) : Reader Json := do
  expect '\x7b'
  skipBlanks
  if ← accept '\x7d' then return .obj []
  let entries ← separated ',' do
    let found ← entry value
    skipBlanks
    return found
  expect '\x7d'
  let table : Table ← entries.foldlM (fun t (path, name, v) => Table.put t path name v) []
  return table.toJson

/-- A value with at most so many arrays and inline tables inside one another. -/
def value : Nat → Reader Json
  | 0 => scalar
  | depth + 1 => do
    match ← peek? with
    | some '[' => array (value depth)
    | some '\x7b' => inlineTable (value depth)
    | _ => scalar

/-! ## Lines -/

/-- What the lines so far have defined. -/
structure Draft where
  root : Table
  /-- The table to which keys go. -/
  header : List String

/-- A header in brackets, single or double. -/
def headerLine (d : Draft) : Reader Draft := do
  expect '['
  let isElement ← accept '['
  let (path, name) ← key
  expect ']'
  if isElement then expect ']'
  endLine
  let root ← if isElement then d.root.openElement path name else d.root.openTable path name
  return ⟨root, path ++ [name]⟩

def entryLine (d : Draft) : Reader Draft := do
  let (path, name, v) ← entry (value maxNesting)
  endLine
  return { d with root := ← d.root.putUnder d.header path name v }

/-- One line, unless the text ends here. -/
def line? (d : Draft) : Reader (Option Draft) := do
  skipBlanks
  match ← peek? with
  | none => return none
  | some '[' => return some (← headerLine d)
  | some c =>
    if c = '#' || c = '\n' || c = '\r' then
      endLine
      return some d
    else return some (← entryLine d)

/-- At most so many lines; each of them has a character at least. -/
def lines : Nat → Draft → Reader Draft
  | 0, d => return d
  | n + 1, d => do
    match ← line? d with
    | none => return d
    | some d => lines n d

/-- A whole text; a byte order mark may stand in front. -/
def document : Reader Json := do
  let _ ← accept '\ufeff'
  let d ← lines (← get).length ⟨[], []⟩
  skipBlanks
  guard (← get).isEmpty
  return d.root.toJson

/-- The object that a text describes. -/
def parse? (s : String) : Option Json := (document.run s.toList).map (·.1)

end LeaseQueue.Toml
