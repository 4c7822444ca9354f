import LeaseQueue.Proofs.Cluster.Rosters
import LeaseQueue.Proofs.Cluster.Seats

/-!
# What a stopped broker still writes

A broker that is stopped, or stops because it has been superseded, has its engine stopped, and takes
nothing more to write.  But a loop that has taken a batch goes on with it: if it reads, it begins a
write, and after a conflict it begins another one, whatever became of the broker.

  `WindsDown (c.step halt) ((c.step halt).run after) (.ofBroker b)`
-/

namespace LeaseQueue.Cluster

open Engine (Duty Ledger Roster)

/-- The next write that a process begins for the engine, if it begins any. -/
def Proc.due? (e : EngineId) (q : Proc) : Option Engine.Due := (q.duty e).due?

/-- An engine that was stopped in the one cluster, and what has become of it in the other. -/
structure WindsDown (c c' : Cluster) (e : EngineId) : Prop where
  stopped : (c'.engines e).phase = .stopped
  empty : (c'.engines e).buffer = []
  /-- Writes were begun only with passes that were under way at the stop: a batch is written again
  only after another conflict, as often as the options allow. -/
  begun : ∃ more, c'.begun e = more ++ c.begun e ∧
    (∀ pass ∈ more, pass.conflicts ≤ (c.engines e).options.maxRetries ∧
      ∃ (i : ProcId) (q : Proc) (earlier : Engine.Due), c.procs[i]? = some q ∧
        q.due? e = some earlier ∧ pass.due.Continues earlier) ∧
    more.Pairwise fun later earlier =>
      later.batch = earlier.batch → earlier.conflicts < later.conflicts

/-- The broker was started with success, and may have been stopped since. -/
def Reigns (c : Cluster) (b : BrokerId) : Prop := ∃ broker, (c.seats b).reign = .begun broker

/-- A heartbeat of the broker's own comes to the result that another broker is in charge. -/
def FindsSuperseded (c : Cluster) (b : BrokerId) (i : ProcId) : Prop :=
  (∃ answer, c.procs[i]? = some (.awaiting (.beat b true) (.landed answer)) ∧
    Broker.heartbeat (c.seats b).options c.clock answer = .done (.ok false)) ∨
  ∃ ticket verdict, c.procs[i]? = some (.renewing b true ticket) ∧
    c.verdict? ticket = some verdict ∧ Broker.renewed verdict = .ok false

/-- The broker is stopped, or stops by itself. -/
def Halts (c : Cluster) (b : BrokerId) : Act → Prop
  | .stopBroker d => d = b
  | .proceed i => c.FindsSuperseded b i
  | _ => False

variable {c c' c₀ : Cluster} {b : BrokerId} {e : EngineId} {act : Act}

/-! ## Stopping -/

theorem stopped_stopEngine (e : EngineId) :
    ((c.stopEngine e).engines e).phase = .stopped ∧ ((c.stopEngine e).engines e).buffer = [] := by
  unfold stopEngine
  split
  next heq =>
    simp only [Engine.stop?] at heq
    split at heq
    next hstopped => simpa using hstopped
    · cases heq
  next engine settled heq =>
    have hengine : (((c.setEngine e engine).settle e settled).engines e) = engine :=
      engines_setEngine_self ..
    rw [hengine]
    simp only [Engine.stop?] at heq
    split at heq
    · cases heq
    · cases heq
      exact ⟨rfl, rfl⟩

theorem Reigns.of_isOpen (h : c.isOpen (.ofBroker b) = true) : c.Reigns b := by
  unfold isOpen at h
  split at h
  next heq => cases heq
  next d heq =>
    cases heq
    split at h
    next broker hbegun => exact ⟨broker, hbegun⟩
    · cases h

theorem Reigns.stopped (h : c.Reigns b) :
    ((c.stopBroker b).engines (.ofBroker b)).phase = .stopped ∧
      ((c.stopBroker b).engines (.ofBroker b)).buffer = [] := by
  obtain ⟨broker, hreign⟩ := h
  rw [stopBroker, hreign]
  exact stopped_stopEngine _

theorem Halts.stopped (h : c.Halts b act) (hreigns : c.Reigns b) :
    ((c.step act).engines (.ofBroker b)).phase = .stopped ∧
      ((c.step act).engines (.ofBroker b)).buffer = [] := by
  cases act with
  | stopBroker d =>
    obtain rfl := h
    exact hreigns.stopped
  | proceed i =>
    have hstep : c.step (.proceed i) = c.finishBeat i b true (.ok false) := by
      rw [step, proceed]
      rcases h with ⟨answer, hq, hbeat⟩ | ⟨ticket, verdict, hq, hverdict, hrenewed⟩
      · simp only [hq, resume, hbeat]
        rfl
      · simp only [hq, hverdict, hrenewed]
    rw [hstep]
    exact Reigns.stopped (c := (c.setProc i .ended).record (.beaten b (.ok false))) hreigns
  | setClock | setMemory | submit | startEngine | stopEngine | elect | call | startBroker | beat
  | land => cases h

/-! ## Winding down -/

/-- What is due is due with some process. -/
theorem due?_duty {i : ProcId} {due : Engine.Due} (h : (c.duty e i).due? = some due) :
    ∃ q, c.procs[i]? = some q ∧ q.due? e = some due := by
  have hon : c.duty e i ≠ .off := by
    intro hoff
    rw [hoff] at h
    cases h
  obtain ⟨q, hq, hduty⟩ := exists_of_duty hon
  rw [hduty] at h
  exact ⟨q, hq, h⟩

theorem due?_ite {p : Prop} [Decidable p] {d : Duty} {due : Engine.Due} :
    (if p then d else .off).due? = some due ↔ p ∧ d.due? = some due :=
  ite_off_iff (P := fun d => d.due? = some due) nofun

/-- A process that has a write before it carries the batch. -/
theorem errand_of_due? {q : Proc} {due : Engine.Due} (h : q.due? e = some due) :
    ∃ f ∈ q.errands e, f.batch = due.batch := by
  cases q with
  | awaiting caller flight =>
    cases caller with
    | commit d epoch point =>
      cases flight with
      | sent failure =>
        obtain ⟨rfl, hdue⟩ := due?_ite.1 h
        rw [Proc.errands, if_pos rfl]
        exact ⟨_, List.mem_singleton_self _, point.batch_of_stage hdue⟩
      | landed answer =>
        obtain ⟨rfl, hdue⟩ := due?_ite.1 h
        rw [Proc.errands, if_pos rfl]
        exact ⟨_, List.mem_singleton_self _, point.batch_of_stageAfter hdue⟩
    | start d point => cases (due?_ite.1 h).2
    | broker b point =>
      cases point with
      | electing => cases h
      | opening now point => cases (due?_ite.1 h).2
    | election | beat | client => cases h
  | loop d epoch pause =>
    obtain ⟨rfl, hdue⟩ := due?_ite.1 h
    cases pause with
    | backingOff earlier =>
      cases hdue
      rw [Proc.errands, if_pos rfl]
      exact ⟨_, List.mem_singleton_self _, rfl⟩
    | entering | resting | givingWay => cases hdue
  | registering | renewing | ended => cases h

/-- Processes have writes of different batches before them. -/
theorem isApart_roster {timeout : Millis} (h : Ledger.Sound timeout (c.ledger e)) :
    (c.roster e).IsApart := by
  intro i j p q hp hq hbatch
  obtain ⟨x, hx, hxp⟩ := due?_duty hp
  obtain ⟨y, hy, hyq⟩ := due?_duty hq
  obtain ⟨f, hf, hfp⟩ := errand_of_due? hxp
  obtain ⟨g, hg, hgq⟩ := errand_of_due? hyq
  by_contra hij
  have hother : g ∈ c.others e i :=
    List.mem_flatMap.2 ⟨y, List.mem_eraseIdx_iff_getElem?.2 ⟨j, Ne.symm hij, hy⟩, hg⟩
  obtain ⟨first, last, hsplit⟩ := List.append_of_mem hf
  have hperm := errands_perm (e := e) hx
  rw [hsplit, List.append_assoc, List.cons_append] at hperm
  have hfront := hperm.trans List.perm_middle
  refine h.ne_of_other hfront (g := g) ?_ (hfp.trans (hbatch.trans hgq.symm))
  exact List.mem_append_right _ (List.mem_append_right _ hother)

/-- What every step keeps after the stop of a broker, as long as nobody starts its engine again. -/
structure Winding (c₀ c : Cluster) (b : BrokerId) : Prop where
  winds : ∃ more, (c₀.roster (.ofBroker b)).Winds
    (c.engines (.ofBroker b)).options.maxRetries.toNat (c.roster (.ofBroker b)) more
  wellFormed : (c.roster (.ofBroker b)).WellFormed
    (c.engines (.ofBroker b)).options.maxRetries.toNat
  decided : c.Decided b
  options : c.options = c₀.options

theorem Decided.not_starts (h : c.Decided b) (hact : act ≠ .startEngine (.ofBroker b)) :
    ¬ c.Starts (.ofBroker b) act := by
  intro hstarts
  cases act with
  | startEngine e => exact hact (congrArg Act.startEngine hstarts)
  | proceed i =>
    obtain ⟨d, a, now, attempt, answer, heq, hq⟩ := hstarts
    cases heq
    exact h.nobody i ⟨_, hq, rfl⟩
  | setClock | setMemory | submit | stopEngine | elect | call | startBroker | beat | stopBroker
  | land => cases hstarts

theorem Winding.step (h : Winding c₀ c b) (hapart : (c₀.roster (.ofBroker b)).IsApart)
    (hact : act ≠ .startEngine (.ofBroker b)) : Winding c₀ (c.step act) b := by
  have hoptions := options_step c act
  refine ⟨?_, wellFormed_step h.wellFormed act, h.decided.step_of_seatStep (seatStep act),
    hoptions.trans h.options⟩
  rw [engine_options_eq hoptions]
  obtain ⟨more, hwinds⟩ := h.winds
  rcases step_or_begin (c := c) (e := .ofBroker b) act with hstep | ⟨hstarts, -⟩
  · exact hwinds.step hapart h.wellFormed hstep
  · exact absurd hstarts (h.decided.not_starts hact)

theorem Winding.run (h : Winding c₀ c b) (hapart : (c₀.roster (.ofBroker b)).IsApart)
    {acts : List Act} (hacts : .startEngine (.ofBroker b) ∉ acts) : Winding c₀ (c.run acts) b := by
  induction acts generalizing c with
  | nil => exact h
  | cons act acts ih =>
    rw [List.mem_cons, not_or] at hacts
    exact ih (h.step hapart (Ne.symm hacts.1)) hacts.2

theorem Winding.windsDown (h : Winding c₀ c b) : WindsDown c₀ c (.ofBroker b) := by
  obtain ⟨more, hwinds⟩ := h.winds
  refine ⟨hwinds.phase, hwinds.buffer, more, hwinds.begun, ?_, hwinds.rising⟩
  intro pass hpass
  obtain ⟨htried, i, earlier, hearlier, hcontinues⟩ := hwinds.carried pass hpass
  rw [engine_options_eq h.options] at htried
  obtain ⟨q, hq, hdue⟩ := due?_duty hearlier
  exact ⟨UInt32.le_iff_toNat_le.2 htried, i, q, earlier, hq, hdue, hcontinues⟩

/-- **A stopped broker begins no write but with what its loops had taken before**, as long as its
engine is not started again. -/
theorem windsDown_of_halts (engines : Nat → Engine.Options) (brokers : BrokerId → Broker.Options)
    (memory : Store.Memory) (ids : IdSupply) (clock : Millis) (before after : List Act)
    (halt : Act) (b : BrokerId) :
    let c := (init engines brokers memory ids clock).run before
    c.Reigns b → c.Halts b halt → .startEngine (.ofBroker b) ∉ after →
    WindsDown (c.step halt) ((c.step halt).run after) (.ofBroker b) := by
  intro c hreigns hhalts hafter
  obtain ⟨hphase, hbuffer⟩ := hhalts.stopped hreigns
  have hwell := wellFormed_run_init engines brokers memory ids clock before (.ofBroker b)
  have hseated : c.Seated b := (seated_init engines brokers memory ids clock).run before
  have hdecided : (c.step halt).Decided b := by
    obtain ⟨broker, hbegun⟩ := hreigns
    exact (hseated.decided hbegun).step_of_seatStep (seatStep halt)
  have hsound := sound_run engines brokers memory ids clock (before ++ [halt]) (.ofBroker b)
  rw [run_append] at hsound
  have hwinding : Winding (c.step halt) (c.step halt) b :=
    ⟨⟨[], .refl hphase hbuffer⟩, wellFormed_step hwell halt, hdecided, rfl⟩
  exact (hwinding.run (isApart_roster hsound) hafter).windsDown

/-- A broker's start, and a write of its engine that meets with a conflict. -/
def conflicted : List Act :=
  [.startBroker 0, .land 0, .proceed 0, .land 0, .proceed 0, .land 0, .proceed 0, .land 0,
    .proceed 0, .proceed 1, .proceed 1, .proceed 1, .land 1, .proceed 1, .proceed 0,
    .submit (.ofBroker 0) (.complete "a" "w"), .proceed 1, .proceed 1,
    .call (.write "queue.json" Document.empty.encode "2"), .land 2, .land 1, .proceed 1]

theorem windsDown_conflicted :
    let e : EngineId := .ofBroker 0
    let c := blank.run conflicted
    let after : List Act := [.proceed 1, .land 1, .proceed 1, .land 1, .proceed 1]
    c.Reigns 0 ∧ c.Halts 0 (.stopBroker 0) ∧ .startEngine e ∉ after ∧
    WindsDown (c.step (.stopBroker 0)) ((c.step (.stopBroker 0)).run after) e := by
  intro e c after
  have hreigns : c.Reigns 0 := .of_isOpen (by decide +kernel)
  have hafter : .startEngine e ∉ after := by simp [after]
  exact ⟨hreigns, rfl, hafter,
    windsDown_of_halts _ _ _ _ _ conflicted after (.stopBroker 0) 0 hreigns rfl hafter⟩

/-- A broker is stopped while its loop backs off, and no write is on its way.  Still the loop begins
another write, and that takes effect. -/
theorem writes_after_stop :
    let e : EngineId := .ofBroker 0
    let stopped := (blank.run conflicted).step (.stopBroker 0)
    let after : List Act := [.proceed 1, .land 1, .proceed 1, .land 1]
    let tickets (batch : List Engine.Pending) := batch.map (·.ticket)
    (blank.run conflicted).Reigns 0 ∧ .startEngine e ∉ after ∧
    (stopped.begun e).map (tickets ·.batch) = [[1], [0]] ∧
    ((stopped.run after).begun e).map (tickets ·.batch) = [[1], [1], [0]] ∧
    (stopped.written e).map (tickets ·.batch) = [[0]] ∧
    ((stopped.run after).written e).map (tickets ·.batch) = [[1], [0]] := by
  intro e stopped after tickets
  exact ⟨.of_isOpen (by decide +kernel), by simp [after], by decide +kernel, by decide +kernel,
    by decide +kernel, by decide +kernel⟩

end LeaseQueue.Cluster
