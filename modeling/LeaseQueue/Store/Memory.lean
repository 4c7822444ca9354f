import LeaseQueue.Store.Basic

/-!
# Storage in memory

Each object has the number of the put that stored it, counted over the whole store; its token is
that number in decimals.  A call is counted and reads the store's settings when it is made, and takes
effect in one step after the latency.
-/

namespace LeaseQueue.Store

structure Memory.Entry where
  data : Bytes
  version : Nat
deriving DecidableEq, Repr

/-- What every operation is subject to. -/
structure Memory.Options where
  /-- Milliseconds before a call takes effect. -/
  latency : Nat
  /-- The failure of every call, if there is one. -/
  failure : Option Error
deriving DecidableEq, Repr

structure Memory where
  entries : List (String × Memory.Entry)
  lastVersion : Nat
  options : Memory.Options
  reads : Nat
  writes : Nat
  creates : Nat
deriving DecidableEq, Repr

namespace Memory

def empty : Memory := ⟨[], 0, ⟨0, none⟩, 0, 0, 0⟩

def Entry.toObject (e : Entry) : Object := ⟨e.data, toString e.version⟩

def entry? (m : Memory) (key : String) : Option Entry := m.entries.lookup key

/-- The digits of a number below `2 ^ 64`, perhaps after a plus sign. -/
def parseVersion? (token : Token) : Option Nat :=
  let digits := match token.toList with
    | '+' :: rest => rest
    | all => all
  if digits.isEmpty || digits.any (!·.isDigit) then none
  else
    let n := digits.foldl (fun n c => 10 * n + (c.toNat - 48)) 0
    if n < UInt64.size then some n else none

/-- Puts an entry in the place of an earlier one, or at the end. -/
def setEntry (key : String) (e : Entry) : List (String × Entry) → List (String × Entry)
  | [] => [(key, e)]
  | (k, x) :: rest => if k = key then (key, e) :: rest else (k, x) :: setEntry key e rest

/-- Stores data under a new version. -/
def store (m : Memory) (key : String) (data : Bytes) : Answer .put × Memory :=
  let version := m.lastVersion + 1
  (.ok (toString version),
    { m with entries := setEntry key ⟨data, version⟩ m.entries, lastVersion := version })

/-- The effect of a call. -/
def serve {a : Access} (m : Memory) : Call a → Answer a × Memory
  | .read key => (.ok ((m.entry? key).map Entry.toObject), m)
  | .write key data expected =>
    match m.entry? key with
    | none => (.error (.conflict key), m)
    | some e =>
      if parseVersion? expected = some e.version then m.store key data
      else (.error (.conflict key), m)
  | .create key data =>
    match m.entry? key with
    | some _ => (.error (.conflict key), m)
    | none => m.store key data

/-- A call that has been made and has not yet taken effect. -/
structure Pending (a : Access) where
  call : Call a
  failure : Option Error

/-- Counts a call and notes whether it will fail. -/
def accept {a : Access} (m : Memory) (call : Call a) : Memory × Pending a :=
  let m := match call with
    | .read _ => { m with reads := m.reads + 1 }
    | .write _ _ _ => { m with writes := m.writes + 1 }
    | .create _ _ => { m with creates := m.creates + 1 }
  (m, ⟨call, m.options.failure⟩)

/-- The answer of a pending call, and its effect if it does not fail. -/
def finish {a : Access} (m : Memory) (p : Pending a) : Answer a × Memory :=
  match p.failure with
  | some e => (Answer.failed e, m)
  | none => m.serve p.call

end Memory

end LeaseQueue.Store
