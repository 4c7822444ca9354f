import LeaseQueue.Engine.Startup
import LeaseQueue.Store.Basic

/-!
# Faults on purpose

A layer between the queue and its store that lets the next calls fail, pretend that an object is gone
or that a race was lost, or has another client change the document just before a write.
-/

namespace LeaseQueue.Simulation

structure Faults where
  /-- How many of the next writes conflict. -/
  conflictWrites : Nat
  conflictCreates : Nat
  /-- How many of the next reads find nothing. -/
  vanishReads : Nat
  /-- What the next calls fail with. -/
  failReads : List Store.Error
  failWrites : List Store.Error
  failCreates : List Store.Error
  /-- What another client does before the next write that goes on. -/
  takeover : List Mutation
deriving DecidableEq, Repr

namespace Faults

def none : Faults := ⟨0, 0, 0, [], [], [], []⟩

/-- The answer that a fault gives to a call, if there is one for it.  Failures come first. -/
def intercept {a : Store.Access} (f : Faults) : Store.Call a → Faults × Option (Store.Answer a)
  | .read _ =>
    match f.failReads, f.vanishReads with
    | e :: rest, _ => ({ f with failReads := rest }, some (.error e))
    | [], n + 1 => ({ f with vanishReads := n }, some (.ok .none))
    | [], 0 => (f, .none)
  | .write key _ _ =>
    match f.failWrites, f.conflictWrites with
    | e :: rest, _ => ({ f with failWrites := rest }, some (.error e))
    | [], n + 1 => ({ f with conflictWrites := n }, some (.error (.conflict key)))
    | [], 0 => (f, .none)
  | .create key _ =>
    match f.failCreates, f.conflictCreates with
    | e :: rest, _ => ({ f with failCreates := rest }, some (.error e))
    | [], n + 1 => ({ f with conflictCreates := n }, some (.error (.conflict key)))
    | [], 0 => (f, .none)

end Faults

/-! ## Another client -/

/-- What another client puts back after it has read the document, and what its mutations came to. -/
structure ForeignCommit where
  call : Store.Call .put
  results : List MutationResult
  ids : IdSupply

/-- Applies mutations to the document that was read; where there is none, to an empty one. -/
def ForeignCommit.ofAnswer (key : String) (ms : List Mutation) (clock : Millis) (ids : IdSupply) :
    Store.Answer .read → Except Engine.Error ForeignCommit
  | .ok none =>
    let outcome := Document.empty.applyAll ms clock ids
    .ok ⟨.create key outcome.document.encode, outcome.result, outcome.ids⟩
  | answer =>
    match Engine.received key answer with
    | .error e => .error e
    | .ok cached =>
      let outcome := cached.document.applyAll ms clock ids
      .ok ⟨.write key outcome.document.encode cached.token, outcome.result, outcome.ids⟩

end LeaseQueue.Simulation
