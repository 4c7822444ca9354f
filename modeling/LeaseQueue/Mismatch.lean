import LeaseQueue.Decimal.Shortest
import LeaseQueue.Text.Quoted

/-!
# Values that do not fit

What can be wrong with a value that was readable as such: a field is missing or given twice, a name
is none of those allowed, a value is of another kind or out of range, an array is too short, or a
job claims to be in progress and does not say by whom and since when.
-/

namespace LeaseQueue

/-- The kind of a value, with the value itself where a message shows it. -/
inductive Found where
  | null
  | boolean (value : Bool)
  | integer (value : Int)
  | double (bits : UInt64)
  | text (value : String)
  | sequence
  | map
deriving DecidableEq, Repr

inductive Mismatch where
  | missingField (name : String)
  | duplicateField (name : String)
  | unknownVariant (found : String) (expected : List String)
  | wrongType (found : Found) (expected : String)
  | outOfRange (value : Int) (expected : String)
  | wrongLength (found : Nat) (expected : String)
  | leaseIncomplete (job : String)
  /-- Neither one of some names nor a table that holds nothing but one. -/
  | noChoice
deriving DecidableEq, Repr

/-- How a value is named in messages; doubles are set out by `layout`. -/
def Found.message (layout : Decimal.Layout) : Found → String
  | .null => "null"
  | .boolean b => s!"boolean `{b}`"
  | .integer i => s!"integer `{i}`"
  | .double bits => "floating point `" ++ String.ofList (layout.text bits) ++ "`"
  | .text s => "string " ++ Text.quoted s
  | .sequence => "sequence"
  | .map => "map"

/-- Two names are joined by "or", more are enumerated. -/
def expectedNames (names : List String) : String :=
  match names.map fun n => "`" ++ n ++ "`" with
  | [] => "there are no variants"
  | [a] => "expected " ++ a
  | [a, b] => "expected " ++ a ++ " or " ++ b
  | many => "expected one of " ++ ", ".intercalate many

def Mismatch.message (layout : Decimal.Layout) : Mismatch → String
  | .missingField name => "missing field `" ++ name ++ "`"
  | .duplicateField name => "duplicate field `" ++ name ++ "`"
  | .unknownVariant found expected =>
    "unknown variant `" ++ found ++ "`, " ++ expectedNames expected
  | .wrongType found expected =>
    "invalid type: " ++ found.message layout ++ ", expected " ++ expected
  | .outOfRange value expected =>
    "invalid value: integer `" ++ toString value ++ "`, expected " ++ expected
  | .wrongLength found expected =>
    "invalid length " ++ toString found ++ ", expected " ++ expected
  | .leaseIncomplete job =>
    "job " ++ job ++ " is in_progress without both workerId and heartbeat"
  | .noChoice => "wanted string or table"

end LeaseQueue
