import LeaseQueue.Simulation.Faults
import LeaseQueue.Store.Memory
import LeaseQueue.Store.Remote
import LeaseQueue.Store.Throttle

/-!
# Layers of storage

From below: a store in memory or an adapter on an object store in memory, then faults, then limits if
there are any.  A call goes down through the layers and may have to wait on its way, for a limit or
for the latency of the memory store.  A leg of its way ends with the answer or with a wait and the
stage that comes after it.
-/

namespace LeaseQueue.Simulation

structure Stack where
  memory : Store.Memory
  /-- If there is an object store, the memory store is not used. -/
  remote : Option (Store.Remote × Store.ObjectMap)
  faults : Faults
  throttle : Option (Store.Throttle Float)

/-- What a call meets on its way. -/
structure Surroundings where
  /-- Milliseconds since the start. -/
  time : Nat
  clock : Millis
  ids : IdSupply

/-- The stage of a call after a wait. -/
inductive Stage : Store.Access → Type where
  /-- Past the limits. -/
  | admitted {a : Store.Access} (call : Store.Call a) : Stage a
  /-- After the latency. -/
  | stored {a : Store.Access} (pending : Store.Memory.Pending a) : Stage a
  /-- Another client reads before the write. -/
  | foreignRead (ms : List Mutation) (write : Store.Call .put)
      (pending : Store.Memory.Pending .read) : Stage .put
  /-- Another client writes before the write. -/
  | foreignPut (write : Store.Call .put) (pending : Store.Memory.Pending .put) : Stage .put

inductive Leg (a : Store.Access) where
  | landed (answer : Store.Answer a)
  | waiting (wait : Nat) (stage : Stage a)

/-- The lowest layer answers at once or after its latency. -/
inductive Base (a : Store.Access) where
  | landed (answer : Store.Answer a)
  | waiting (wait : Nat) (pending : Store.Memory.Pending a)

structure StackMove (a : Store.Access) where
  stack : Stack
  ids : IdSupply
  leg : Leg a

namespace Stack

/-- An empty store in memory, behind limits if they limit anything. -/
def inMemory (limits : Store.Limits) : Stack where
  memory := .empty
  remote := none
  faults := .none
  throttle := if limits.isUnlimited then none else some (.ofLimits limits 0)

/-- A pending call takes effect in the memory store. -/
def land {a : Store.Access} (s : Stack) (p : Store.Memory.Pending a) : Stack × Store.Answer a :=
  let (answer, memory) := s.memory.finish p
  ({ s with memory }, answer)

/-- A call on the lowest layer. -/
def base {a : Store.Access} (s : Stack) (call : Store.Call a) : Stack × Base a :=
  match s.remote with
  | some (adapter, objects) =>
    let (answer, objects) := adapter.serve objects call
    ({ s with remote := some (adapter, objects) }, .landed answer)
  | none =>
    let (memory, pending) := s.memory.accept call
    let s := { s with memory }
    if memory.options.latency = 0 then
      let (s, answer) := s.land pending
      (s, .landed answer)
    else (s, .waiting memory.options.latency pending)

/-- A call on the lowest layer as the last leg of its way. -/
def descend {a : Store.Access} (s : Stack) (ids : IdSupply) (call : Store.Call a) : StackMove a :=
  match s.base call with
  | (s, .landed answer) => ⟨s, ids, .landed answer⟩
  | (s, .waiting wait pending) => ⟨s, ids, .waiting wait (.stored pending)⟩

/-- The other client has read; it puts its document, then the write goes on. -/
def foreignPut (s : Stack) (around : Surroundings) (ms : List Mutation)
    (write : Store.Call .put) (answer : Store.Answer .read) : StackMove .put :=
  match ForeignCommit.ofAnswer write.key ms around.clock around.ids answer with
  | .error _ => s.descend around.ids write
  | .ok commit =>
    match s.base commit.call with
    | (s, .landed _) => s.descend commit.ids write
    | (s, .waiting wait pending) => ⟨s, commit.ids, .waiting wait (.foreignPut write pending)⟩

/-- The other client reads, then puts, before the write goes on. -/
def foreignRead (s : Stack) (around : Surroundings) (ms : List Mutation)
    (write : Store.Call .put) : StackMove .put :=
  match s.base (.read write.key) with
  | (s, .landed answer) => s.foreignPut around ms write answer
  | (s, .waiting wait pending) => ⟨s, around.ids, .waiting wait (.foreignRead ms write pending)⟩

/-- A call that the limits have admitted. -/
def admitted {a : Store.Access} (s : Stack) (around : Surroundings) (call : Store.Call a) :
    StackMove a :=
  let (faults, answer?) := s.faults.intercept call
  let s := { s with faults }
  match answer? with
  | some answer => ⟨s, around.ids, .landed answer⟩
  | none =>
    match call with
    | .write key data expected =>
      match faults.takeover with
      | [] => s.descend around.ids (.write key data expected)
      | ms =>
        { s with faults := { faults with takeover := [] } }.foreignRead around ms
          (.write key data expected)
    | other => s.descend around.ids other

/-- A call from above. -/
def call {a : Store.Access} (s : Stack) (around : Surroundings) (call : Store.Call a) :
    StackMove a :=
  match s.throttle with
  | none => s.admitted around call
  | some throttle =>
    let (wait, throttle) := throttle.meter a around.time around.clock
    let s := { s with throttle := some throttle }
    if wait = 0 then s.admitted around call else ⟨s, around.ids, .waiting wait (.admitted call)⟩

/-- Goes on after a wait. -/
def resume {a : Store.Access} (s : Stack) (around : Surroundings) : Stage a → StackMove a
  | .admitted call => s.admitted around call
  | .stored pending =>
    let (s, answer) := s.land pending
    ⟨s, around.ids, .landed answer⟩
  | .foreignRead ms write pending =>
    let (s, answer) := s.land pending
    s.foreignPut around ms write answer
  | .foreignPut write pending =>
    let (s, _) := s.land pending
    s.descend around.ids write

end Stack

end LeaseQueue.Simulation
