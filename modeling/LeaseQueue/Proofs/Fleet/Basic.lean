import LeaseQueue.Proofs.Cluster.Processes
import LeaseQueue.Proofs.Cluster.Tickets
import LeaseQueue.Proofs.Runs
import LeaseQueue.Proofs.Store.Cells

/-!
# Fleets

A fleet is a cluster at any server.  Its engines, elections and brokers do what they do in a
cluster, but a call takes effect on the state of the server and has the server's answer.  Others use
the server as well, and may leave it in any state.

  `f.step server (.move act) = { f with cluster := f.cluster.step act }` unless `act` lands a call

So all that holds in a cluster whatever the store answers holds in a fleet.
-/

namespace LeaseQueue

/-- The store in memory of the cluster is not asked; it counts the calls. -/
structure Fleet (σ : Type) where
  cluster : Cluster
  state : σ

namespace Fleet

open Cluster (BrokerId Caller EngineId ProcId)
open Engine (Ledger)

inductive Act (σ : Type) where
  | move (act : Cluster.Act)
  /-- Somebody else leaves the server in this state. -/
  | intrude (state : σ)

variable {σ : Type} (server : Store.Server σ)

/-- Nothing has been started yet. -/
def init (engines : Nat → Engine.Options) (brokers : BrokerId → Broker.Options) (ids : IdSupply)
    (clock : Millis) (state : σ) : Fleet σ :=
  ⟨Cluster.init engines brokers .empty ids clock, state⟩

/-- The call of a process takes effect. -/
def land (f : Fleet σ) (i : ProcId) : Fleet σ :=
  match f.cluster.procs[i]? with
  | some (.awaiting caller (.sent _)) =>
    let (answer, state) := server.answer f.state (f.cluster.callOf caller)
    ⟨f.cluster.landed i caller answer f.cluster.memory, state⟩
  | _ => f

def step (f : Fleet σ) : Act σ → Fleet σ
  | .move (.land i) => f.land server i
  | .move act => { f with cluster := f.cluster.step act }
  | .intrude state => { f with state }

abbrev run (f : Fleet σ) (acts : List (Act σ)) : Fleet σ := Run.run (step server) f acts

abbrev Moment (σ : Type) := Run.Moment (Fleet σ) (Act σ)

abbrev trail (f : Fleet σ) (acts : List (Act σ)) : List (Moment σ) := Run.trail (step server) f acts

/-- The call has taken effect: the server has answered it. -/
def answered (f : Fleet σ) (i : ProcId) {a : Store.Access} (caller : Caller a) : Fleet σ where
  cluster := f.cluster.landed i caller (server.answer f.state (f.cluster.callOf caller)).1
    f.cluster.memory
  state := (server.answer f.state (f.cluster.callOf caller)).2

/-- What a step does to a fleet. -/
inductive FleetStep (f : Fleet σ) (act : Act σ) : Prop where
  | lands {i : ProcId} {a : Store.Access} {caller : Caller a} {failure : Option Store.Error}
    (hact : act = .move (.land i))
    (hq : f.cluster.procs[i]? = some (.awaiting caller (.sent failure)))
    (h : f.step server act = f.answered server i caller)
  | moves {move : Cluster.Act} (hact : act = .move move) (hne : ∀ i, move ≠ .land i)
    (h : f.step server act = { f with cluster := f.cluster.step move })
  /-- The cluster is not concerned. -/
  | rests (hcluster : (f.step server act).cluster = f.cluster)
    (hstate : (f.step server act).state = f.state ∨ ∃ state, act = .intrude state)

variable {server} (f : Fleet σ) {i : ProcId}

/-! ## One step -/

theorem land_of_sent {a : Store.Access} {caller : Caller a} {failure : Option Store.Error}
    (hq : f.cluster.procs[i]? = some (.awaiting caller (.sent failure))) :
    f.land server i = f.answered server i caller := by
  rw [land, hq]
  rfl

theorem step_move {act : Cluster.Act} (hne : ∀ i, act ≠ .land i) :
    f.step server (.move act) = { f with cluster := f.cluster.step act } := by
  cases act with
  | land i => exact absurd rfl (hne i)
  | _ => rfl

variable (server)

theorem fleetStep (act : Act σ) : f.FleetStep server act := by
  cases act with
  | intrude state => exact .rests rfl (.inr ⟨state, rfl⟩)
  | move act =>
    rcases act.land_or with ⟨i, rfl⟩ | hne
    · by_cases hsent : ∃ (a : Store.Access) (caller : Caller a) (failure : Option Store.Error),
          f.cluster.procs[i]? = some (.awaiting caller (.sent failure))
      · obtain ⟨a, caller, failure, hq⟩ := hsent
        exact .lands rfl hq (f.land_of_sent hq)
      · have hidle : f.step server (.move (.land i)) = f := by
          rw [step, land]
          split
          next hq => exact absurd ⟨_, _, _, hq⟩ hsent
          · rfl
        exact .rests (congrArg cluster hidle) (.inl (congrArg state hidle))
    · exact .moves rfl hne (f.step_move hne)

/-! ## What holds whatever the server answers -/

/-- What holds of a cluster, after every answer that may land and after every move, holds after a
step of the fleet. -/
theorem cluster_step {P : Cluster → Prop} (act : Act σ)
    (hlands : ∀ {i : ProcId} {a : Store.Access} {caller : Caller a} {failure : Option Store.Error},
      f.cluster.procs[i]? = some (.awaiting caller (.sent failure)) →
      ∀ answer, P (f.cluster.landed i caller answer f.cluster.memory))
    (hmoves : ∀ move, P (f.cluster.step move)) (hrests : P f.cluster) :
    P (f.step server act).cluster := by
  cases f.fleetStep server act with
  | lands _ hq h =>
    rw [h]
    exact hlands hq _
  | moves _ _ h =>
    rw [h]
    exact hmoves _
  | rests hcluster =>
    rw [hcluster]
    exact hrests

theorem options_step (act : Act σ) : (f.step server act).cluster.options = f.cluster.options :=
  f.cluster_step (P := fun c => c.options = f.cluster.options) server act (fun _ _ => rfl)
    (fun _ => Cluster.options_step _ _) rfl

theorem options_run (acts : List (Act σ)) :
    (f.run server acts).cluster.options = f.cluster.options := by
  induction acts generalizing f with
  | nil => rfl
  | cons act acts ih => exact (ih (f.step server act)).trans (f.options_step server act)

theorem steps_step (act : Act σ) (e : EngineId) :
    Ledger.Steps (f.cluster.engines e).options.heartbeatTimeout (f.cluster.ledger e)
      ((f.step server act).cluster.ledger e) :=
  f.cluster_step (P := fun c => Ledger.Steps _ (f.cluster.ledger e) (c.ledger e)) server act
    (fun hq answer => Cluster.steps_landed hq answer _) (fun _ => Cluster.steps_step _) .refl

/-- **A run of a fleet is a run of every engine's ledger.** -/
theorem steps_run (acts : List (Act σ)) (e : EngineId) :
    Ledger.Steps (f.cluster.engines e).options.heartbeatTimeout (f.cluster.ledger e)
      ((f.run server acts).cluster.ledger e) := by
  induction acts generalizing f with
  | nil => exact .refl
  | cons act acts ih =>
    have hrest := ih (f.step server act)
    rw [Cluster.engine_options_eq (f.options_step server act) e] at hrest
    exact (f.steps_step server act e).trans hrest

theorem sound_run (engines : Nat → Engine.Options) (brokers : BrokerId → Broker.Options)
    (ids : IdSupply) (clock : Millis) (state : σ) (acts : List (Act σ)) (e : EngineId) :
    let c := ((init engines brokers ids clock state).run server acts).cluster
    Ledger.Sound (c.engines e).options.heartbeatTimeout (c.ledger e) := by
  intro c
  let start := init engines brokers ids clock state
  have hempty : Ledger.Sound (start.cluster.engines e).options.heartbeatTimeout
      (start.cluster.ledger e) :=
    Cluster.ledger_init engines brokers .empty ids clock e ▸ Ledger.sound_empty
  rw [Cluster.engine_options_eq (start.options_run server acts) e]
  exact hempty.steps (start.steps_run server acts e)

theorem counted_run (engines : Nat → Engine.Options) (brokers : BrokerId → Broker.Options)
    (ids : IdSupply) (clock : Millis) (state : σ) (acts : List (Act σ)) :
    ((init engines brokers ids clock state).run server acts).cluster.Counted := by
  refine Run.run_induction (P := fun f : Fleet σ => f.cluster.Counted)
    (Cluster.counted_init engines brokers .empty ids clock) (fun f act h => ?_) acts
  exact f.cluster_step server act (fun _ answer => h.landed _ answer _) (fun _ => h.step _) h

variable {f}

/-- Nobody loses an answer before it proceeds. -/
theorem getElem?_step_of_landed {a : Store.Access} {caller : Caller a} {answer : Store.Answer a}
    (hq : f.cluster.procs[i]? = some (.awaiting caller (.landed answer))) {act : Act σ}
    (hne : act ≠ .move (.proceed i)) :
    (f.step server act).cluster.procs[i]? = some (.awaiting caller (.landed answer)) := by
  cases f.fleetStep server act with
  | @lands j a' caller' failure _ hj hstep =>
    have hij : j ≠ i := by
      rintro rfl
      cases hq.symm.trans hj
    rw [hstep]
    exact (List.getElem?_set_ne hij).trans hq
  | moves hact _ hstep =>
    rw [hstep]
    exact Cluster.getElem?_step_of_landed hq fun heq => hne (hact.trans (congrArg Act.move heq))
  | rests hcluster =>
    rw [hcluster]
    exact hq

end Fleet

end LeaseQueue
