import LeaseQueue.Json.Basic

/-!
# Tables in the making

The lines of a text fill tables in the order in which they stand.  A table comes from a header, is
implied by a longer header, or is made by dotted keys, and that decides who may add to it: dotted keys
only go through tables that no header has named, and only a table that is merely implied can get a
header of its own.  Nothing is ever defined twice.

A header that names an implied table moves it behind its neighbours.
-/

namespace LeaseQueue.Toml

/-- Where a table comes from. -/
inductive Origin where
  | header
  | implied
  | dotted
deriving DecidableEq, Repr

/-- What stands under a key. -/
inductive Node where
  | value (v : Json)
  | table (origin : Origin) (entries : List (String × Node))
  /-- Each of the elements is a table; keys go to the last of them. -/
  | tables (elements : List Node)

abbrev Table := List (String × Node)

namespace Table

def erase (t : Table) (key : String) : Table := t.filter (·.1 ≠ key)

/-- Puts something else under a key, in the same place. -/
def replace (t : Table) (key : String) (node : Node) : Table :=
  t.map fun (k, n) => if k = key then (k, node) else (k, n)

/-- Changes the table at the end of a path; those that are missing on the way are made.  The
change is told the origin of the table. -/
def alter (made : Origin) (change : Origin → Table → Option Table) :
    List String → Origin → Table → Option Table
  | [], origin, t => change origin t
  | key :: path, _, t =>
    match t.lookup key with
    | none => do return t ++ [(key, .table made (← alter made change path made []))]
    | some (.value _) => none
    | some (.table origin inner) =>
      if made = .dotted ∧ origin = .header then none
      else do return t.replace key (.table origin (← alter made change path origin inner))
    | some (.tables elements) =>
      match elements.getLast? with
      | some (.table origin inner) => do
        let last := Node.table origin (← alter made change path origin inner)
        return t.replace key (.tables (elements.dropLast ++ [last]))
      | _ => none

/-- Puts a value under a dotted key, seen from a table with a header. -/
def put (t : Table) (path : List String) (key : String) (v : Json) : Option Table :=
  alter .dotted
    (fun origin t => do
      guard (path.isEmpty ∨ origin = .dotted)
      guard (t.lookup key).isNone
      return t ++ [(key, .value v)])
    path .header t

/-- Puts a value under a dotted key of the table that a header names. -/
def putUnder (t : Table) (header path : List String) (key : String) (v : Json) : Option Table :=
  alter .implied (fun _ t => t.put path key v) header .header t

/-- The header of a table. -/
def openTable (t : Table) (path : List String) (key : String) : Option Table :=
  alter .implied
    (fun _ t =>
      match t.lookup key with
      | none => some (t ++ [(key, .table .header [])])
      | some (.table .implied entries) => some (t.erase key ++ [(key, .table .header entries)])
      | some _ => none)
    path .header t

/-- The header of another element of an array of tables. -/
def openElement (t : Table) (path : List String) (key : String) : Option Table :=
  alter .implied
    (fun _ t =>
      match t.lookup key with
      | none => some (t ++ [(key, .tables [.table .header []])])
      | some (.tables elements) =>
        some (t.replace key (.tables (elements ++ [.table .header []])))
      | some _ => none)
    path .header t

end Table

/-! ## As values -/

mutual

def Node.toJson : Node → Json
  | .value v => v
  | .table _ entries => .obj (entriesToJson entries)
  | .tables elements => .arr (elementsToJson elements)

def entriesToJson : List (String × Node) → List (String × Json)
  | [] => []
  | (key, node) :: rest => (key, node.toJson) :: entriesToJson rest

def elementsToJson : List Node → List Json
  | [] => []
  | node :: rest => node.toJson :: elementsToJson rest

end

def Table.toJson (t : Table) : Json := .obj (entriesToJson t)

end LeaseQueue.Toml
