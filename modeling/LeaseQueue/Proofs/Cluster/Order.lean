import LeaseQueue.Proofs.Cluster.Acknowledgement
import LeaseQueue.Proofs.Queue.Brokers

/-!
# From an election to a reign

A broker claims its place once: its start is under way, or it has asked its engine to write its
registration, but never twice.  It reigns, and renews its heartbeat, only after a write that has
the registration took effect.

Most of what happens in a cluster does not touch on any of this (`Aside`), and leaves it in order:

  `c.Orderly → Aside c c' → c'.Orderly`
-/

namespace LeaseQueue.Cluster

open Engine (Ledger Pending)

/-- A write that has the broker's registration took effect. -/
def Registered (c : Cluster) (b : BrokerId) : Prop :=
  ∃ w ∈ c.written (.ofBroker b), ∃ p ∈ w.batch, p.mutation.IsRegistration

/-- What an engine may be given to write.  Of brokers only their own engines hear: a registration
after a won election, a renewal after a registration. -/
def Lawful (c : Cluster) : EngineId → Mutation → Prop
  | .ofBroker b, .registerBroker address _ =>
    address = (c.seats b).options.address ∧ ∃ d, .crowned b d ∈ c.log
  | .ofBroker b, .renewBroker address _ =>
    address = (c.seats b).options.address ∧ c.Registered b
  | _, m => m.IsAboutJobs

/-- What a broker's registration comes from: its start, then what it has its engine write. -/
inductive Claim where
  | start (i : ProcId)
  | request (p : Pending)

def Claims (c : Cluster) (b : BrokerId) : Claim → Prop
  | .start i => ∃ (a : Store.Access) (point : Broker.Startup a) (flight : Flight a),
    c.procs[i]? = some (.awaiting (.broker b point) flight)
  | .request p => .accepted (.ofBroker b) p ∈ c.log ∧ p.mutation.IsRegistration

def ProcOrderly (c : Cluster) : Proc → Prop
  | .awaiting (.election _ _) _ => False
  | .awaiting (.broker b (.opening _ _)) _ => ∃ d, .crowned b d ∈ c.log
  | .awaiting (.beat b _) _ => c.Registered b
  | .registering b ticket => ticket < c.tickets ∧
    ∀ e p, .accepted e p ∈ c.log → p.ticket = ticket →
      e = .ofBroker b ∧ p.mutation.IsRegistration
  | _ => True

structure Orderly (c : Cluster) : Prop where
  epoch : 0 ≤ c.clock
  stood : ∀ election now, .stood election now ∈ c.log → 0 ≤ now ∧ now.toInt ≤ c.clock.toInt
  fresh : ∀ e p, .accepted e p ∈ c.log → p.ticket < c.tickets
  lawful : ∀ e p, .accepted e p ∈ c.log → c.Lawful e p.mutation
  once : ∀ b x y, c.Claims b x → c.Claims b y → x = y
  unclaimed : ∀ b x, (c.seats b).reign = .unclaimed → ¬ c.Claims b x
  begun : ∀ b broker, (c.seats b).reign = .begun broker → c.Registered b
  procs : ∀ q ∈ c.procs, c.ProcOrderly q

/-! ## What stays in order by itself -/

variable {c c' c'' : Cluster} {b : BrokerId} {i : ProcId} {e : EngineId}

theorem Registered.mono (h : c.Registered b) (hlog : c.log ⊆ c'.log) : c'.Registered b := by
  obtain ⟨w, hw, hp⟩ := h
  obtain ⟨event, hevent, hsome⟩ := List.mem_filterMap.1 hw
  exact ⟨w, List.mem_filterMap.2 ⟨event, hlog hevent, hsome⟩, hp⟩

theorem Lawful.mono {m : Mutation} (h : c.Lawful e m) (hlog : c.log ⊆ c'.log)
    (hoptions : ∀ b, (c'.seats b).options = (c.seats b).options) : c'.Lawful e m := by
  cases e with
  | lone n => exact h
  | ofBroker b =>
    cases m with
    | registerBroker address timestamp =>
      obtain ⟨haddress, d, hd⟩ := h
      exact ⟨hoptions b ▸ haddress, d, hlog hd⟩
    | renewBroker address timestamp => exact ⟨hoptions b ▸ h.1, h.2.mono hlog⟩
    | enqueue | claim | heartbeat | complete => exact h

/-- A process stays in order if nothing is accepted under an old ticket. -/
theorem ProcOrderly.mono {q : Proc} (h : c.ProcOrderly q) (hlog : c.log ⊆ c'.log)
    (htickets : c.tickets ≤ c'.tickets)
    (haccepted : ∀ e p, .accepted e p ∈ c'.log → p.ticket < c.tickets → .accepted e p ∈ c.log) :
    c'.ProcOrderly q := by
  cases q with
  | awaiting caller flight =>
    cases caller with
    | election => exact h
    | broker b point =>
      cases point with
      | electing => trivial
      | opening =>
        obtain ⟨d, hd⟩ := h
        exact ⟨d, hlog hd⟩
    | beat b own => exact Registered.mono h hlog
    | start | commit | client => trivial
  | registering b ticket =>
    refine ⟨Nat.lt_of_lt_of_le h.1 htickets, fun e p hp hticket => ?_⟩
    exact h.2 e p (haccepted e p hp (hticket ▸ h.1)) hticket
  | loop | renewing | ended => trivial

/-- A step that submits nothing. -/
theorem Orderly.mono (h : c.Orderly) (hlog : c.log ⊆ c'.log) (htickets : c.tickets ≤ c'.tickets)
    (hoptions : ∀ b, (c'.seats b).options = (c.seats b).options)
    (hclock : c.clock.toInt ≤ c'.clock.toInt)
    (hstood : ∀ election now, .stood election now ∈ c'.log →
      .stood election now ∈ c.log ∨ now = c'.clock)
    (haccepted : ∀ e p, .accepted e p ∈ c'.log → .accepted e p ∈ c.log)
    (hclaims : ∀ b x, c'.Claims b x → c.Claims b x)
    (hunclaimed : ∀ b, (c'.seats b).reign = .unclaimed → (c.seats b).reign = .unclaimed)
    (hbegun : ∀ b broker, (c'.seats b).reign = .begun broker →
      (∃ broker, (c.seats b).reign = .begun broker) ∨ c'.Registered b)
    (hprocs : ∀ q ∈ c'.procs, q ∈ c.procs ∨ c'.ProcOrderly q) : c'.Orderly where
  epoch := Int64.le_trans h.epoch (Int64.le_iff_toInt_le.2 hclock)
  stood election now hmem := by
    rcases hstood election now hmem with hold | rfl
    · obtain ⟨hepoch, hpast⟩ := h.stood election now hold
      exact ⟨hepoch, Int.le_trans hpast hclock⟩
    · exact ⟨Int64.le_trans h.epoch (Int64.le_iff_toInt_le.2 hclock), Int.le_refl _⟩
  fresh e p hp := Nat.lt_of_lt_of_le (h.fresh e p (haccepted e p hp)) htickets
  lawful e p hp := (h.lawful e p (haccepted e p hp)).mono hlog hoptions
  once b x y hx hy := h.once b x y (hclaims b x hx) (hclaims b y hy)
  unclaimed b x hb hx := h.unclaimed b x (hunclaimed b hb) (hclaims b x hx)
  begun b broker hb := by
    rcases hbegun b broker hb with ⟨broker, hold⟩ | hnew
    · exact (h.begun b broker hold).mono hlog
    · exact hnew
  procs q hq := by
    rcases hprocs q hq with hold | hnew
    · exact (h.procs q hold).mono hlog htickets fun e p hp _ => haccepted e p hp
    · exact hnew

/-! ## Asides -/

/-- Brokers do not depend on this. -/
def Event.IsIdle : Event → Prop
  | .accepted _ _ | .landed _ _ _ _ | .stood _ _ | .crowned _ _ => False
  | _ => True

def Proc.IsIdle : Proc → Prop
  | .awaiting (.broker _ _) _ | .awaiting (.election _ _) _ | .awaiting (.beat _ _) _ => False
  | .registering _ _ => False
  | _ => True

/-- Something happened, but not to a broker on its way. -/
structure Aside (c c' : Cluster) : Prop where
  log : ∃ new, c'.log = new ++ c.log ∧ ∀ event ∈ new, event.IsIdle
  clock : c'.clock = c.clock
  tickets : c.tickets ≤ c'.tickets
  options : ∀ b, (c'.seats b).options = (c.seats b).options
  unclaimed : ∀ b, (c'.seats b).reign = .unclaimed → (c.seats b).reign = .unclaimed
  begun : ∀ b broker, (c'.seats b).reign = .begun broker →
    ∃ broker, (c.seats b).reign = .begun broker
  procs : ∀ (i : ProcId) (q : Proc), c'.procs[i]? = some q → q.IsIdle ∨ c.procs[i]? = some q

namespace Aside

theorem refl : Aside c c where
  log := ⟨[], rfl, List.forall_mem_nil _⟩
  clock := rfl
  tickets := Nat.le_refl _
  options _ := rfl
  unclaimed _ h := h
  begun _ broker h := ⟨broker, h⟩
  procs _ _ h := .inr h

theorem trans (h : Aside c c') (h' : Aside c' c'') : Aside c c'' where
  log := by
    obtain ⟨new, hlog, hnew⟩ := h.log
    obtain ⟨new', hlog', hnew'⟩ := h'.log
    refine ⟨new' ++ new, by rw [hlog', hlog, List.append_assoc], ?_⟩
    exact List.forall_mem_append.2 ⟨hnew', hnew⟩
  clock := h'.clock.trans h.clock
  tickets := Nat.le_trans h.tickets h'.tickets
  options b := (h'.options b).trans (h.options b)
  unclaimed b hb := h.unclaimed b (h'.unclaimed b hb)
  begun b broker hb := by
    obtain ⟨broker, hb⟩ := h'.begun b broker hb
    exact h.begun b broker hb
  procs i q hq := by
    rcases h'.procs i q hq with hidle | hq
    · exact .inl hidle
    · exact h.procs i q hq

variable (h : Aside c c')

include h

theorem log_subset : c.log ⊆ c'.log := by
  obtain ⟨new, hlog, -⟩ := h.log
  exact hlog ▸ List.subset_append_right _ _

theorem mem_log {event : Event} (hevent : ¬ event.IsIdle) (hmem : event ∈ c'.log) :
    event ∈ c.log := by
  obtain ⟨new, hlog, hnew⟩ := h.log
  rw [hlog] at hmem
  rcases List.mem_append.1 hmem with hidle | hold
  · exact absurd (hnew event hidle) hevent
  · exact hold

theorem claims {x : Claim} (hx : c'.Claims b x) : c.Claims b x := by
  cases x with
  | start i =>
    obtain ⟨a, point, flight, hq⟩ := hx
    exact ⟨a, point, flight, (h.procs i _ hq).resolve_left id⟩
  | request p => exact ⟨h.mem_log id hx.1, hx.2⟩

theorem orderly (horderly : c.Orderly) : c'.Orderly := by
  have hclock : c.clock.toInt ≤ c'.clock.toInt := Int.le_of_eq (congrArg Int64.toInt h.clock.symm)
  refine horderly.mono h.log_subset h.tickets h.options hclock
    (fun _ _ hmem => .inl (h.mem_log id hmem)) (fun _ _ hmem => h.mem_log id hmem)
    (fun _ _ => h.claims) h.unclaimed (fun b broker hb => .inl (h.begun b broker hb)) fun q hq => ?_
  obtain ⟨i, hi⟩ := List.getElem?_of_mem hq
  rcases h.procs i q hi with hidle | hold
  · refine .inr ?_
    cases q with
    | awaiting caller flight =>
      cases caller with
      | broker | election | beat => cases hidle
      | start | commit | client => trivial
    | registering => cases hidle
    | loop | renewing | ended => trivial
  · exact .inl (List.mem_of_getElem? hold)

end Aside

section Asides

variable (c) (b) (i) (e)

theorem aside_record (event : Event) (h : event.IsIdle) : Aside c (c.record event) :=
  { Aside.refl with log := ⟨[event], rfl, List.forall_mem_singleton.2 h⟩ }

theorem aside_setEngine (engine : Engine) : Aside c (c.setEngine e engine) := { Aside.refl with }

theorem aside_setIds (ids : IdSupply) : Aside c (c.setIds ids) := { Aside.refl with }

theorem aside_setProc (proc : Proc) (h : proc.IsIdle) : Aside c (c.setProc i proc) :=
  { Aside.refl with
    procs := by
      intro j q hq
      rcases getElem?_procs_set hq with ⟨-, rfl⟩ | hold
      · exact .inl h
      · exact .inr hold }

theorem aside_spawn (proc : Proc) (h : proc.IsIdle) : Aside c (c.spawn proc) :=
  { Aside.refl with
    procs := by
      intro j q hq
      rw [spawn, List.getElem?_append] at hq
      split at hq
      · exact .inr hq
      · obtain rfl := List.mem_singleton.1 (List.mem_of_getElem? hq)
        exact .inl h }

theorem aside_settle (settled : List Engine.Settlement) : Aside c (c.settle e settled) :=
  { Aside.refl with
    log := by
      refine ⟨_, rfl, fun event hevent => ?_⟩
      obtain ⟨s, -, rfl⟩ := List.mem_map.1 (List.mem_reverse.1 hevent)
      trivial }

theorem aside_setReign (reign : Reign)
    (hunclaimed : reign = .unclaimed → (c.seats b).reign = .unclaimed)
    (hbegun : ∀ broker, reign = .begun broker → ∃ broker, (c.seats b).reign = .begun broker) :
    Aside c (c.setReign b reign) := by
  refine { Aside.refl with
    options := broker_options_eq (options_setReign c b reign)
    unclaimed := fun d => ?_
    begun := fun d => ?_ }
  all_goals by_cases hd : d = b
  · rw [hd, seats_setReign_self]
    exact hunclaimed
  · rw [seats_setReign_of_ne c hd]
    exact id
  · rw [hd, seats_setReign_self]
    exact hbegun
  · rw [seats_setReign_of_ne c hd]
    exact fun broker h => ⟨broker, h⟩

theorem aside_launch {a : Store.Access} (caller : Caller a)
    (h : ∀ flight, (Proc.awaiting caller flight).IsIdle) : Aside c (c.launch i caller) := by
  have hset := aside_setProc c i _ (h (.sent (c.memory.accept (c.callOf caller)).2.failure))
  exact { hset with log := ⟨[_], rfl, List.forall_mem_singleton.2 trivial⟩ }

theorem aside_begin {a : Store.Access} (caller : Caller a)
    (h : ∀ flight, (Proc.awaiting caller flight).IsIdle) : Aside c (c.begin caller) :=
  (aside_spawn c (.ended) trivial).trans (aside_launch _ _ caller h)

theorem aside_stopEngine : Aside c (c.stopEngine e) := by
  unfold stopEngine
  split
  · exact .refl
  next engine settled _ => exact (aside_setEngine c e engine).trans (aside_settle _ e settled)

theorem aside_stopBroker : Aside c (c.stopBroker b) := by
  unfold stopBroker
  split
  next broker hbegun =>
    have hstopped : Aside c (c.setReign b (.begun broker.stop)) := by
      refine aside_setReign c b _ (fun heq => ?_) fun _ _ => ⟨broker, hbegun⟩
      cases heq
    exact hstopped.trans (aside_stopEngine _ _)
  · exact .refl

theorem aside_followStart (move : Engine × Engine.Startup.Progress) :
    Aside c (c.followStart i e move) := by
  obtain ⟨engine, result | point⟩ := move
  · have hended := (aside_setEngine c e engine).trans (aside_setProc _ i (.ended) trivial)
    have hnoted := hended.trans (aside_record _ (.started e result) trivial)
    cases result with
    | running epoch kick =>
      exact hnoted.trans (aside_spawn _ (.loop e epoch .entering) trivial)
    | already | failed => exact hnoted
  · exact (aside_setEngine c e engine).trans (aside_launch _ i (.start e point) fun _ => trivial)

theorem aside_followLoop (epoch : Nat) (next : Engine.LoopStep) :
    Aside c (c.followLoop i e epoch next) := by
  cases next with
  | commit point => exact aside_launch c i (.commit e epoch point) fun _ => trivial
  | rest | giveWay | backOff | leave => exact aside_setProc c i _ trivial

theorem aside_followMove (epoch : Nat) (move : Engine.LoopMove) :
    Aside c (c.followMove i e epoch move) :=
  (((aside_setEngine c e move.engine).trans (aside_setIds _ move.ids)).trans
    (aside_settle _ e move.settled)).trans (aside_followLoop _ i e epoch move.next)

theorem aside_noteBatch : Aside c (c.noteBatch e) := by
  unfold noteBatch
  split
  · exact .refl
  · exact aside_record c _ trivial

theorem aside_stepLoop (epoch : Nat) (pause : Pause) : Aside c (c.stepLoop i e epoch pause) := by
  cases pause with
  | entering => exact aside_followLoop c i e epoch _
  | resting => exact aside_followLoop c i e epoch _
  | givingWay => exact (aside_noteBatch c e).trans (aside_followMove _ i e epoch _)
  | backingOff pass => exact aside_followMove c i e epoch _

theorem aside_finishBeat (own : Bool) (result : Except Broker.Error Bool) :
    Aside c (c.finishBeat i b own result) := by
  have hended := (aside_setProc c i (.ended) trivial).trans
    (aside_record _ (.beaten b result) trivial)
  fun_cases finishBeat c i b own result
  · exact hended.trans (aside_stopBroker _ b)
  · exact hended

end Asides

end LeaseQueue.Cluster
