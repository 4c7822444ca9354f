import LeaseQueue.Json.Reader

/-!
# Formats of types

A format says how the values of a type are read from JSON: directly from text, with a bound on
nesting, or from a value that was read before.  Both ways agree on what fits and on what is wrong.

A record is an object with the names of its fields or, shorter, an array of them in order, from which
fields at the end may be missing.  Members with other names are passed over.  A tagged value is an
object with one member that names its variant, wherever it stands, or an array that begins with that
name; its text is read as a whole before the other parts are looked at.
-/

namespace LeaseQueue

structure Format (α : Type) where
  /-- Reads from text with at most so many arrays and objects inside one another. -/
  read : Nat → Bytes → Reading α
  ofJson : Json → Except Mismatch α

namespace Json

/-- What a message calls a value. -/
def found : Json → Found
  | .null => .null
  | .bool b => .boolean b
  | .num (.int i) => .integer i
  | .num (.double bits) => .double bits
  | .str s => .text s
  | .arr _ => .sequence
  | .obj _ => .map

end Json

namespace Format

/-! ## Simple values -/

/-- A value without parts; `accept` is to refuse arrays and objects. -/
def scalar {α : Type} (accept : Json → Except Mismatch α) : Format α where
  read _ s :=
    match Json.readFlat (Json.skipSpace s) with
    | .error e => .error e
    | .ok (v, rest) =>
      match accept v with
      | .ok a => .ok (a, rest)
      | .error m => .error (.mismatch m)
  ofJson := accept

def text : Format String := scalar fun
  | .str s => .ok s
  | v => .error (.wrongType v.found "a string")

/-- An integer from `low` to `high`. -/
def integer {α : Type} (name : String) (low high : Int) (ofInt : Int → α) : Format α := scalar fun
  | .num (.int i) => if low ≤ i ∧ i ≤ high then .ok (ofInt i) else .error (.outOfRange i name)
  | v => .error (.wrongType v.found name)

def int64 : Format Int64 :=
  integer "i64" Int64.minValue.toInt Int64.maxValue.toInt Int64.ofInt

def uint64 : Format UInt64 :=
  integer "u64" 0 (UInt64.size - 1 : Nat) fun i => UInt64.ofNat i.toNat

def uint32 : Format UInt32 :=
  integer "u32" 0 (UInt32.size - 1 : Nat) fun i => UInt32.ofNat i.toNat

/-- A count that fits into 64 bits. -/
def size : Format Nat := integer "usize" 0 (UInt64.size - 1 : Nat) Int.toNat

def unit : Format Unit := scalar fun
  | .null => .ok ()
  | v => .error (.wrongType v.found "unit")

/-- One of some names. -/
def name {α : Type} (names : List (String × α)) : Format α := scalar fun
  | .str s =>
    match names.lookup s with
    | some a => .ok a
    | none => .error (.unknownVariant s (names.map (·.1)))
  | v => .error (.wrongType v.found "variant identifier")

/-- Any value, its objects sorted. -/
def any : Format Json where
  read depth s := (Json.read depth s).map fun (v, rest) => (v.normalize, rest)
  ofJson v := .ok v.normalize

/-- Null stands for no value. -/
def option {α : Type} (inner : Format α) : Format (Option α) where
  read depth s :=
    match Json.skipSpace s with
    | [] => .error .ended
    | b :: rest =>
      if b = Bytes.ofChar 'n' then
        (Json.expect (Bytes.ofChars ['u', 'l', 'l']) rest).map (none, ·)
      else (inner.read depth (b :: rest)).map fun (a, rest) => (some a, rest)
  ofJson
    | .null => .ok none
    | v => (inner.ofJson v).map some

/-- A value of another kind than an array or object was expected to be. -/
def refuse {α : Type} (expected : String) (s : Bytes) : Reading α :=
  match Json.readFlat s with
  | .error e => .error e
  | .ok (v, _) => .error (.mismatch (.wrongType v.found expected))

/-- The inside of a bracket: one level less is left for it. -/
def inside {α : Type} (depth : Nat) (reader : Nat → Reading α) : Reading α :=
  match depth with
  | 0 => .error .malformed
  | depth + 1 => reader depth

def list {α : Type} (inner : Format α) : Format (List α) where
  read depth s :=
    match Json.skipSpace s with
    | [] => .error .ended
    | b :: rest =>
      if b = Ascii.leftBracket then
        inside depth fun depth =>
          (Json.readItems
            (fun items s => (inner.read depth s).map fun (v, s) => (v :: items, s)) [] rest).map
              fun (items, s) => (items.reverse, s)
      else refuse "a sequence" (b :: rest)
  ofJson
    | .arr items => items.mapM inner.ofJson
    | v => .error (.wrongType v.found "a sequence")

/-- A name alone, or as the key of an object that holds nothing but null under it. -/
def variant {α : Type} (names : List (String × α)) : Format α where
  read depth s :=
    match Json.skipSpace s with
    | [] => .error .ended
    | b :: rest =>
      if b = Ascii.quote then (name names).read depth (b :: rest)
      else if b = Ascii.leftBrace then
        inside depth fun depth =>
          match (name names).read depth rest with
          | .error e => .error e
          | .ok (a, s) =>
            match Json.afterColon (unit.read depth) s with
            | .error e => .error e
            | .ok ((), s) => (Json.mark Ascii.rightBrace s).map (a, ·)
      else .error .malformed
  ofJson
    | .obj [(k, v)] => do
      let a ← (name names).ofJson (.str k)
      unit.ofJson v
      return a
    | .str s => (name names).ofJson (.str s)
    | v => .error (.wrongType v.found "string or map")

end Format

/-! ## Records -/

/-- A field of a record that is collected in a draft. -/
structure Field (σ : Type) where
  name : String
  /-- Whether an array that ends before this field is long enough. -/
  droppable : Bool
  isSet : σ → Bool
  read : Nat → Bytes → σ → Reading σ
  ofJson : Json → σ → Except Mismatch σ

/-- A field with a place of its own in the draft. -/
def Field.of {σ α : Type} (name : String) (format : Format α) (droppable : Bool)
    (get : σ → Option α) (set : α → σ → σ) : Field σ where
  name := name
  droppable := droppable
  isSet draft := (get draft).isSome
  read depth s draft := (format.read depth s).map fun (a, rest) => (set a draft, rest)
  ofJson v draft := (format.ofJson v).map (set · draft)

/-- How values are made from drafts. -/
structure Record (σ α : Type) where
  /-- What a message calls the type. -/
  title : String
  blank : σ
  fields : List (Field σ)
  finish : σ → Except Mismatch α

/-- A field that has to be there. -/
def require {α : Type} (name : String) : Option α → Except Mismatch α
  | some a => .ok a
  | none => .error (.missingField name)

namespace Record

variable {σ α : Type}

/-- What a message says was expected of an array. -/
def shape (r : Record σ α) : String :=
  if r.fields.length = 1 then r.title ++ " with 1 element"
  else r.title ++ " with " ++ toString r.fields.length ++ " elements"

def field? (r : Record σ α) (key : String) : Option (Field σ) := r.fields.find? (·.name = key)

def finishReading (r : Record σ α) : Reading σ → Reading α
  | .error e => .error e
  | .ok (draft, rest) =>
    match r.finish draft with
    | .ok a => .ok (a, rest)
    | .error m => .error (.mismatch m)

/-- Takes in the fields in order, the `index`-th and following. -/
def readPositions (r : Record σ α) (depth : Nat) :
    List (Field σ) → Nat → Bool → σ → Bytes → Reading σ
  | [], _, _, draft, s => .ok (draft, s)
  | field :: fields, index, first, draft, s =>
    match Json.nextItem first s with
    | .error e => .error e
    | .ok (true, s) =>
      match field.read depth s draft with
      | .error e => .error e
      | .ok (draft, s) => readPositions r depth fields (index + 1) false draft s
    | .ok (false, s) =>
      if field.droppable then readPositions r depth fields (index + 1) first draft s
      else .error (.mismatch (.wrongLength index r.shape))

def readMember (r : Record σ α) (depth : Nat) (draft : σ) (key : String) (s : Bytes) :
    Reading σ :=
  match r.field? key with
  | some field =>
    if field.isSet draft then .error (.mismatch (.duplicateField key))
    else Json.afterColon (field.read depth · draft) s
  | none => Json.afterColon (fun s => (Json.skip s).map (draft, ·)) s

def read (r : Record σ α) (depth : Nat) (s : Bytes) : Reading α :=
  match Json.skipSpace s with
  | [] => .error .ended
  | b :: rest =>
    if b = Ascii.leftBracket then
      Format.inside depth fun depth =>
        match r.readPositions depth r.fields 0 true r.blank rest with
        | .error e => .error e
        | .ok (draft, s) =>
          r.finishReading ((Json.mark Ascii.rightBracket s).map (draft, ·))
    else if b = Ascii.leftBrace then
      Format.inside depth fun depth =>
        r.finishReading (Json.readMembers (r.readMember depth) r.blank rest)
    else Format.refuse r.title (b :: rest)

/-- Takes in the fields in order from the items of an array. -/
def ofItems (r : Record σ α) :
    List (Field σ) → Nat → σ → List Json → Except Mismatch (σ × List Json)
  | [], _, draft, items => .ok (draft, items)
  | field :: fields, index, draft, [] =>
    if field.droppable then ofItems r fields (index + 1) draft []
    else .error (.wrongLength index r.shape)
  | field :: fields, index, draft, v :: items =>
    match field.ofJson v draft with
    | .error e => .error e
    | .ok draft => ofItems r fields (index + 1) draft items

def ofMembers (r : Record σ α) : σ → List (String × Json) → Except Mismatch σ
  | draft, [] => .ok draft
  | draft, (key, v) :: members =>
    match r.field? key with
    | some field =>
      if field.isSet draft then .error (.duplicateField key)
      else
        match field.ofJson v draft with
        | .error e => .error e
        | .ok draft => ofMembers r draft members
    | none => ofMembers r draft members

/-- Items that no field takes are too many. -/
def surplus (total taken : Nat) : Mismatch :=
  .wrongLength total (toString taken ++ (if taken = 1 then " element" else " elements") ++
    " in sequence")

def ofJson (r : Record σ α) : Json → Except Mismatch α
  | .arr items =>
    match r.ofItems r.fields 0 r.blank items with
    | .error e => .error e
    | .ok (draft, []) => r.finish draft
    | .ok (_, _ :: _) => .error (surplus items.length r.fields.length)
  | .obj members =>
    match r.ofMembers r.blank members with
    | .error e => .error e
    | .ok draft => r.finish draft
  | v => .error (.wrongType v.found r.title)

def format (r : Record σ α) : Format α := ⟨r.read, r.ofJson⟩

end Record

/-! ## Tagged values -/

/-- The variant's name, once it was met, and the other parts in order. -/
structure TaggedDraft (τ : Type) where
  tag : Option τ
  members : List (String × Json)

structure Tagged (τ α : Type) where
  title : String
  /-- The key of the member that names the variant. -/
  key : String
  tag : Format τ
  variant : τ → Json → Except Mismatch α

namespace Tagged

variable {τ α : Type}

def finish (t : Tagged τ α) (tag : Option τ) (content : Json) (rest : Bytes) : Reading α :=
  match tag with
  | none => .error (.mismatch (.missingField t.key))
  | some tag =>
    match t.variant tag content with
    | .ok a => .ok (a, rest)
    | .error m => .error (.mismatch m)

def readMember (t : Tagged τ α) (depth : Nat) (draft : TaggedDraft τ) (key : String)
    (s : Bytes) : Reading (TaggedDraft τ) :=
  if key = t.key then
    if draft.tag.isSome then .error (.mismatch (.duplicateField key))
    else
      (Json.afterColon (t.tag.read depth) s).map fun (tag, s) => ({ draft with tag := some tag }, s)
  else
    (Json.afterColon (Json.read depth) s).map fun (v, s) =>
      ({ draft with members := (key, v) :: draft.members }, s)

def readArray (t : Tagged τ α) (depth : Nat) (s : Bytes) : Reading α :=
  match Json.nextItem true s with
  | .error e => .error e
  | .ok (false, s) => t.finish none .null s
  | .ok (true, s) =>
    match t.tag.read depth s with
    | .error e => .error e
    | .ok (tag, s) =>
      match Json.foldItems
        (fun items s => (Json.read depth s).map fun (v, s) => (v :: items, s))
        (s.length + 1) false [] s with
      | .error e => .error e
      | .ok (items, s) =>
        match Json.mark Ascii.rightBracket s with
        | .error e => .error e
        | .ok s => t.finish (some tag) (.arr items.reverse) s

def read (t : Tagged τ α) (depth : Nat) (s : Bytes) : Reading α :=
  match Json.skipSpace s with
  | [] => .error .ended
  | b :: rest =>
    if b = Ascii.leftBracket then
      Format.inside depth fun depth => t.readArray depth rest
    else if b = Ascii.leftBrace then
      Format.inside depth fun depth =>
        match Json.readMembers (t.readMember depth) ⟨none, []⟩ rest with
        | .error e => .error e
        | .ok (draft, s) => t.finish draft.tag (.obj draft.members.reverse) s
    else Format.refuse t.title (b :: rest)

def ofMembers (t : Tagged τ α) : TaggedDraft τ → List (String × Json) →
    Except Mismatch (TaggedDraft τ)
  | draft, [] => .ok draft
  | draft, (key, v) :: members =>
    if key = t.key then
      if draft.tag.isSome then .error (.duplicateField key)
      else
        match t.tag.ofJson v with
        | .error e => .error e
        | .ok tag => ofMembers t { draft with tag := some tag } members
    else ofMembers t { draft with members := (key, v) :: draft.members } members

def ofJson (t : Tagged τ α) : Json → Except Mismatch α
  | .arr [] => .error (.missingField t.key)
  | .arr (v :: items) =>
    match t.tag.ofJson v with
    | .error e => .error e
    | .ok tag => t.variant tag (.arr items)
  | .obj members =>
    match t.ofMembers ⟨none, []⟩ members with
    | .error e => .error e
    | .ok ⟨none, _⟩ => .error (.missingField t.key)
    | .ok ⟨some tag, members⟩ => t.variant tag (.obj members.reverse)
  | v => .error (.wrongType v.found t.title)

def format (t : Tagged τ α) : Format α := ⟨t.read, t.ofJson⟩

end Tagged

/-- The value of a whole text. -/
def Format.parse {α : Type} (format : Format α) (s : Bytes) : Except ReadError α :=
  Json.whole (format.read Json.maxNesting) s

end LeaseQueue
