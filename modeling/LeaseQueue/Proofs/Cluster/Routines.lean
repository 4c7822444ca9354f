import LeaseQueue.Proofs.Cluster.Acknowledgement

/-!
# Routine

Most of what goes on in a cluster is routine: no submission comes in, no election comes out, and no
broker fails but by its engine.

  `Routine c c'`

So what is said of submissions and of elections is said of the few parts of a step that are not
routine.
-/

namespace LeaseQueue.Cluster

open Engine (Settlement)

def Event.isRoutine : Event → Bool
  | .accepted _ _ | .rejected _ _ | .elected _ _ => false
  | _ => true

structure Routine (c c' : Cluster) : Prop where
  tickets : c'.tickets = c.tickets
  log : ∃ new, c'.log = new ++ c.log ∧ ∀ event ∈ new, event.isRoutine
  reign : ∀ b cause, (c'.seats b).reign = .failed cause →
    (∃ e, cause = .engine e) ∨ (c.seats b).reign = .failed cause

variable {c c' c'' : Cluster} {i : ProcId} {e : EngineId} {b : BrokerId}

namespace Routine

theorem of_eq (htickets : c'.tickets = c.tickets) (hlog : c'.log = c.log)
    (hseats : c'.seats = c.seats) : Routine c c' :=
  ⟨htickets, ⟨[], hlog, List.forall_mem_nil _⟩, fun _ _ h => .inr (hseats ▸ h)⟩

theorem refl (c : Cluster) : Routine c c := of_eq rfl rfl rfl

theorem trans (h : Routine c c') (h' : Routine c' c'') : Routine c c'' where
  tickets := h'.tickets.trans h.tickets
  log := by
    obtain ⟨new, hnew, hroutine⟩ := h.log
    obtain ⟨new', hnew', hroutine'⟩ := h'.log
    refine ⟨new' ++ new, by rw [hnew', hnew, List.append_assoc], fun event hevent => ?_⟩
    exact (List.mem_append.1 hevent).elim (hroutine' event) (hroutine event)
  reign b cause hb := by
    rcases h'.reign b cause hb with hengine | hb
    · exact .inl hengine
    · exact h.reign b cause hb

end Routine

/-! ## What is routine -/

theorem routine_record (event : Event) (h : event.isRoutine) : Routine c (c.record event) :=
  ⟨rfl, ⟨[event], rfl, List.forall_mem_singleton.2 h⟩, fun _ _ => .inr⟩

theorem routine_settle (settled : List Settlement) : Routine c (c.settle e settled) := by
  refine ⟨rfl, ⟨(settled.map (Event.settled e)).reverse, rfl, fun event hevent => ?_⟩,
    fun _ _ => .inr⟩
  obtain ⟨s, -, rfl⟩ := List.mem_map.1 (List.mem_reverse.1 hevent)
  rfl

theorem routine_setReign (reign : Reign)
    (h : ∀ cause, reign = .failed cause → ∃ e, cause = .engine e) :
    Routine c (c.setReign b reign) := by
  refine ⟨rfl, ⟨[], rfl, List.forall_mem_nil _⟩, fun d cause hd => ?_⟩
  by_cases hdb : d = b
  · subst hdb
    rw [seats_setReign_self] at hd
    exact .inl (h cause hd)
  · rw [seats_setReign_of_ne c hdb] at hd
    exact .inr hd

theorem routine_launch {a : Store.Access} (caller : Caller a) : Routine c (c.launch i caller) := by
  rw [launch]
  exact ⟨rfl, ⟨[.called caller (c.callOf caller)], rfl, List.forall_mem_singleton.2 rfl⟩,
    fun _ _ => .inr⟩

theorem routine_begin {a : Store.Access} (caller : Caller a) : Routine c (c.begin caller) := by
  have hspawn : Routine c (c.spawn .ended) := .of_eq rfl rfl rfl
  exact hspawn.trans (routine_launch caller)

theorem routine_stopEngine : Routine c (c.stopEngine e) := by
  unfold stopEngine
  split
  · exact .refl c
  next engine settled _ =>
    have hset : Routine c (c.setEngine e engine) := .of_eq rfl rfl rfl
    exact hset.trans (routine_settle settled)

theorem routine_stopBroker : Routine c (c.stopBroker b) := by
  unfold stopBroker
  split
  next broker _ => exact (routine_setReign (.begun broker.stop) nofun).trans routine_stopEngine
  · exact .refl c

theorem routine_followStart (move : Engine × Engine.Startup.Progress) :
    Routine c (c.followStart i e move) := by
  obtain ⟨engine, result | point⟩ := move
  · have hended : Routine c ((c.setEngine e engine).setProc i .ended) := .of_eq rfl rfl rfl
    have hstarted := hended.trans (routine_record (.started e result) rfl)
    cases result with
    | running => exact hstarted.trans (.of_eq rfl rfl rfl)
    | already | failed => exact hstarted
  · have hset : Routine c (c.setEngine e engine) := .of_eq rfl rfl rfl
    exact hset.trans (routine_launch _)

theorem routine_followLoop {epoch : Nat} (next : Engine.LoopStep) :
    Routine c (c.followLoop i e epoch next) := by
  cases next with
  | commit point => exact routine_launch _
  | rest | giveWay | backOff | leave => exact .of_eq rfl rfl rfl

theorem routine_followMove {epoch : Nat} (move : Engine.LoopMove) :
    Routine c (c.followMove i e epoch move) := by
  have hset : Routine c ((c.setEngine e move.engine).setIds move.ids) := .of_eq rfl rfl rfl
  exact (hset.trans (routine_settle move.settled)).trans (routine_followLoop move.next)

theorem routine_crown (document : Option Document) : Routine c (c.crown b document) := by
  cases document with
  | none => exact .refl c
  | some document => exact routine_record (.crowned b document) rfl

theorem routine_enthrone (verdict : Engine.Verdict) : Routine c (c.enthrone i b verdict) := by
  have hended : Routine c (c.setProc i .ended) := .of_eq rfl rfl rfl
  cases verdict with
  | ok result => exact hended.trans (routine_setReign _ nofun)
  | error cause =>
    have hfailed := hended.trans (routine_setReign (b := b) (.failed (.engine cause)) ?_)
    · exact hfailed.trans routine_stopEngine
    · intro found hfound
      cases hfound
      exact ⟨cause, rfl⟩

theorem routine_finishBeat {own : Bool} (result : Except Broker.Error Bool) :
    Routine c (c.finishBeat i b own result) := by
  have hended : Routine c (c.setProc i .ended) := .of_eq rfl rfl rfl
  have hbeaten := hended.trans (routine_record (.beaten b result) rfl)
  fun_cases finishBeat c i b own result
  · exact hbeaten.trans routine_stopBroker
  · exact hbeaten

theorem routine_noteBatch : Routine c (c.noteBatch e) := by
  unfold noteBatch
  split
  · exact .refl c
  · exact routine_record _ rfl

theorem routine_stepLoop {epoch : Nat} (pause : Pause) :
    Routine c (c.stepLoop i e epoch pause) := by
  cases pause with
  | entering | resting => exact routine_followLoop _
  | givingWay => exact routine_noteBatch.trans (routine_followMove _)
  | backingOff pass => exact routine_followMove _

theorem routine_startEngine : Routine c (c.startEngine e) := by
  have hspawn : Routine c (c.spawn .ended) := .of_eq rfl rfl rfl
  exact hspawn.trans (routine_followStart _)

theorem routine_elect (election : Election) (now : Millis) : Routine c (c.elect election now) := by
  have hstood : Routine c (c.record (.stood election now)) := routine_record _ rfl
  exact hstood.trans (routine_begin _)

theorem routine_startBroker : Routine c (c.startBroker b) := by
  unfold startBroker
  split
  · have hstarting : Routine c (c.setReign b .starting) := routine_setReign _ nofun
    exact (hstarting.trans (routine_record _ rfl)).trans (routine_begin _)
  · exact .refl c

theorem routine_beat (own : Bool) : Routine c (c.beat b own) := by
  unfold beat
  split
  · exact routine_begin _
  · exact .refl c

end LeaseQueue.Cluster
