import LeaseQueue.Bytes

/-!
# Conditional storage

What the queue asks of a store: to read an object with the token of its revision, to replace it if
its token is still the one expected, and to create it if there is none.  A lost race is a conflict
and kept apart from all other failures.

A call has an access, which fixes the type of its answer.  A computation that waits for answers is
given by its points of waiting: a family of types, one for each access.

What only ever counts up has 64 bits in a running system: the versions of a store, the calls that it
has seen, the epochs of an engine.  Here such counts are numbers without a bound, and stand for the
others as long as they are less than `UInt64.size`; where a version is read from a token, this is said.
-/

namespace LeaseQueue.Store

inductive Error where
  /-- The object is not the one that the caller knows. -/
  | conflict (key : String)
  | backend (name operation message : String)
  | misconfigured (message : String)
deriving DecidableEq, Repr

def Error.message : Error → String
  | .conflict key => "CAS conflict on " ++ key
  | .backend name operation message => name ++ " " ++ operation ++ " failed: " ++ message
  | .misconfigured message => "storage misconfigured: " ++ message

/-- Marks a revision of an object.  Whoever has one hands it back as it is; what a store reads in it
is the store's affair. -/
abbrev Token := String

structure Object where
  data : Bytes
  token : Token
deriving DecidableEq, Repr

/-- Whether a call looks at an object or stores one. -/
inductive Access where
  | read
  | put
deriving DecidableEq, Repr

inductive Call : Access → Type where
  | read (key : String) : Call .read
  /-- Replaces the object whose token is `expected`. -/
  | write (key : String) (data : Bytes) (expected : Token) : Call .put
  /-- Stores an object where there is none. -/
  | create (key : String) (data : Bytes) : Call .put
deriving DecidableEq, Repr

def Call.key {a : Access} : Call a → String
  | .read key => key
  | .write key _ _ => key
  | .create key _ => key

/-- A read finds an object or none, a put gives the new token. -/
abbrev Answer : Access → Type
  | .read => Except Error (Option Object)
  | .put => Except Error Token

/-- The answer of a call that failed. -/
def Answer.failed {a : Access} (e : Error) : Answer a :=
  match a with
  | .read => .error e
  | .put => .error e

/-- A computation is done, or it waits at a point for the answer to a call. -/
inductive Progress (Point : Access → Type) (ρ : Type) where
  | done (result : ρ)
  | waiting {a : Access} (point : Point a)

end LeaseQueue.Store
