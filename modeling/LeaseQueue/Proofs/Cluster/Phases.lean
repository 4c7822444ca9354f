import LeaseQueue.Proofs.Cluster.EngineSteps
import LeaseQueue.Proofs.Engine.Staffing

/-!
# The phases of an engine and who is behind them

An engine is running exactly if there is one loop of the present epoch, and starting exactly if one
start of the present epoch waits for the store.  Each start of a stopped engine has an epoch of its
own, and a start whose epoch is over changes nothing any more:

  `(init engines brokers memory ids clock).Phased acts e`
-/

namespace LeaseQueue

/-- The store's answer tells a start that the document is there. -/
def Engine.Startup.Ensures (key : String) {a : Store.Access} :
    Engine.Startup a → Store.Answer a → Prop
  | .creating _, answer => ∃ token, answer = .ok token
  | .reading _, answer => ∃ cached, Engine.received key answer = .ok cached

namespace Cluster

open Engine (Duty Roster)

/-- A start of the engine in some epoch, which waits for the store. -/
def Proc.IsStart (e : EngineId) (epoch : Nat) : Proc → Prop
  | .awaiting (.start d point) _ => d = e ∧ point.epoch = epoch
  | .awaiting (.broker b (.opening _ point)) _ => .ofBroker b = e ∧ point.epoch = epoch
  | _ => False

/-- A loop of the engine that was spawned in some epoch, and is not finished. -/
def Proc.IsLoop (e : EngineId) (epoch : Nat) : Proc → Prop
  | .awaiting (.commit d n _) _ => d = e ∧ n = epoch
  | .loop d n _ => d = e ∧ n = epoch
  | _ => False

def AwaitsStart (c : Cluster) (e : EngineId) (epoch : Nat) (i : ProcId) : Prop :=
  ∃ q, c.procs[i]? = some q ∧ q.IsStart e epoch

def RunsLoop (c : Cluster) (e : EngineId) (epoch : Nat) (i : ProcId) : Prop :=
  ∃ q, c.procs[i]? = some q ∧ q.IsLoop e epoch

/-- The engine is stopped before, but not after. -/
def Moment.LeavesStopped (m : Moment) (e : EngineId) : Prop :=
  (m.before.engines e).phase = .stopped ∧ (m.after.engines e).phase ≠ .stopped

/-- How phase, epoch and processes of an engine go together in a run. -/
structure Phased (start : Cluster) (acts : List Act) (e : EngineId) : Prop where
  running : ((start.run acts).engines e).phase = .running ↔
    ∃! i, (start.run acts).RunsLoop e ((start.run acts).engines e).epoch i
  starting : ((start.run acts).engines e).phase = .starting ↔
    ∃! i, (start.run acts).AwaitsStart e ((start.run acts).engines e).epoch i
  epoch : ∀ m ∈ start.trail acts, (m.before.engines e).epoch ≤ (m.after.engines e).epoch
  /-- A stopped engine is left only by starting it, which begins an epoch. -/
  leaves : ∀ m ∈ start.trail acts, m.LeavesStopped e ↔
    (m.before.engines e).phase = .stopped ∧ m.before.Opens e m.act
  begins : ∀ m ∈ start.trail acts, m.LeavesStopped e →
    (m.after.engines e).phase = .starting ∧
      (m.after.engines e).epoch = (m.before.engines e).epoch + 1
  /-- No two starts have the same epoch. -/
  fresh : (start.trail acts).Pairwise fun m m' => m.LeavesStopped e → m'.LeavesStopped e →
    (m.after.engines e).epoch < (m'.after.engines e).epoch
  /-- A start whose epoch is over leaves the phase alone, whatever it comes to. -/
  superseded : ∀ m ∈ start.trail acts, ∀ i n, m.before.AwaitsStart e n i →
    n ≠ (m.before.engines e).epoch → m.act = .land i ∨ m.act = .proceed i →
    (m.after.engines e).phase = (m.before.engines e).phase
  /-- And if the document is there, it reports that it was stopped, and spawns no loop. -/
  belated : ∀ m ∈ start.trail acts, ∀ i (a : Store.Access) (point : Engine.Startup a)
    (answer : Store.Answer a), m.before.StartAnswered e i point answer →
    point.epoch ≠ (m.before.engines e).epoch →
    point.Ensures (m.before.engines e).options.stateKey answer → m.act = .proceed i →
    m.before.StartReturns e m.act (.failed .stopped) ∧
      m.after.procs = m.before.procs.set i .ended

variable {c start : Cluster} {e : EngineId} {i : ProcId} {n : Nat} {acts : List Act} {m : Moment}

/-! ## Processes on duty -/

theorem duty_eq_iff {P : Duty → Prop} (hoff : ¬ P .off) :
    P (c.duty e i) ↔ ∃ q, c.procs[i]? = some q ∧ P (q.duty e) := by
  constructor
  · intro h
    have hon : c.duty e i ≠ .off := fun heq => hoff (heq ▸ h)
    obtain ⟨q, hq, hduty⟩ := exists_of_duty hon
    exact ⟨q, hq, hduty ▸ h⟩
  · rintro ⟨q, hq, h⟩
    rw [duty_of_getElem? hq]
    exact h

theorem duty_eq_start_iff (q : Proc) : q.duty e = .start n ↔ q.IsStart e n := by
  have hite {p : Prop} [Decidable p] {d : Duty} :
      (if p then d else .off) = .start n ↔ p ∧ d = .start n :=
    ite_off_iff (P := (· = .start n)) nofun
  cases q with
  | awaiting caller flight =>
    cases caller with
    | start d point => exact hite.trans (by rw [Duty.start.injEq]; rfl)
    | broker b point =>
      cases point with
      | opening now point => exact hite.trans (by rw [Duty.start.injEq]; rfl)
      | electing => exact iff_of_false nofun id
    | commit d epoch point =>
      cases flight <;> exact iff_of_false (fun h => nomatch (hite.1 h).2) id
    | election | beat | client => exact iff_of_false nofun id
  | loop d epoch pause => exact iff_of_false (fun h => nomatch (hite.1 h).2) id
  | registering | renewing | ended => exact iff_of_false nofun id

theorem duty_eq_loop_iff (q : Proc) : (∃ s, q.duty e = .loop n s) ↔ q.IsLoop e n := by
  have hite {p : Prop} [Decidable p] {d : Duty} :
      (∃ s, (if p then d else .off) = .loop n s) ↔ p ∧ ∃ s, d = .loop n s :=
    ite_off_iff (P := fun d => ∃ s, d = .loop n s) nofun
  have hloop {m : Nat} {s₀ : Engine.Stage} : (∃ s, Duty.loop m s₀ = .loop n s) ↔ m = n := by
    simp
  cases q with
  | awaiting caller flight =>
    cases caller with
    | commit d epoch point =>
      cases flight with
      | sent failure => exact hite.trans (and_congr_right fun _ => hloop)
      | landed answer => exact hite.trans (and_congr_right fun _ => hloop)
    | start d point => exact iff_of_false (fun h => nomatch (hite.1 h).2) id
    | broker b point =>
      cases point with
      | opening now point => exact iff_of_false (fun h => nomatch (hite.1 h).2) id
      | electing => exact iff_of_false nofun id
    | election | beat | client => exact iff_of_false nofun id
  | loop d epoch pause => exact hite.trans (and_congr_right fun _ => hloop)
  | registering | renewing | ended => exact iff_of_false nofun id

theorem awaitsStart_iff : c.AwaitsStart e n i ↔ c.duty e i = .start n := by
  rw [duty_eq_iff (P := (· = .start n)) nofun]
  simp only [AwaitsStart, duty_eq_start_iff]

theorem runsLoop_iff : c.RunsLoop e n i ↔ ∃ s, c.duty e i = .loop n s := by
  rw [duty_eq_iff (P := fun d => ∃ s, d = .loop n s) nofun]
  simp only [RunsLoop, duty_eq_loop_iff]

theorem duty_of_startAnswered {a : Store.Access} {point : Engine.Startup a}
    {answer : Store.Answer a} (h : c.StartAnswered e i point answer) :
    c.duty e i = .start point.epoch := by
  rcases h with hq | ⟨b, now, rfl, hq⟩
  · rw [duty_of_getElem? hq]
    exact if_pos rfl
  · rw [duty_of_getElem? hq]
    exact if_pos rfl

/-! ## One step -/

theorem staffed_step (h : (c.roster e).Staffed) (act : Act) : ((c.step act).roster e).Staffed := by
  rcases step_or_begin (c := c) (e := e) act with hstep | ⟨-, i, hbegin⟩
  · exact h.step hstep
  · exact .begin hbegin

/-- A start that waits is not there when the engine is stopped, unless its epoch is over. -/
theorem phase_of_starts (hwell : (c.roster e).WellFormed (c.engines e).options.maxRetries.toNat)
    (hstopped : (c.engines e).phase = .stopped) {a : Store.Access} {point : Engine.Startup a}
    {answer : Store.Answer a} (h : c.StartAnswered e i point answer) :
    ((c.engines e).resumeStart point answer).1.phase = .stopped := by
  have hduty := duty_of_startAnswered h
  have hmove := (c.engines e).resumeStart_move point answer
  generalize (c.engines e).resumeStart point answer = move at hmove
  cases hmove with
  | waiting _ _ hcontrol => exact (congrArg Engine.Control.phase hcontrol).trans hstopped
  | running _ hepoch =>
    rw [← hepoch] at hduty
    have hstarting : (c.engines e).phase = .starting := hwell.starting i hduty
    rw [hstopped] at hstarting
    cases hstarting
  | failed _ hcontrol =>
    refine (congrArg Engine.Control.phase hcontrol).trans ?_
    show (if _ then _ else _) = _
    split
    · rfl
    · exact hstopped

theorem leavesStopped_iff
    (hwell : (m.before.roster e).WellFormed (m.before.engines e).options.maxRetries.toNat) :
    m.LeavesStopped e ↔ (m.before.engines e).phase = .stopped ∧ m.before.Opens e m.act := by
  refine and_congr_right fun hstopped => ⟨fun hleaves => ?_, fun hopens => ?_⟩
  · rw [Moment.after] at hleaves
    cases lifeStep (c := m.before) (e := e) m.act with
    | stays hphase => exact absurd (hphase.trans hstopped) hleaves
    | opens hopens => exact hopens
    | stops _ hphase => exact absurd hphase hleaves
    | starts _ hanswered hphase =>
      exact absurd (hphase.trans (phase_of_starts hwell hstopped hanswered)) hleaves
  · rw [Moment.after, hopens.engines, Engine.start, if_pos hstopped]
    intro hphase
    cases hphase

theorem begins_of_opens (hstopped : (m.before.engines e).phase = .stopped)
    (hopens : m.before.Opens e m.act) :
    (m.after.engines e).phase = .starting ∧
      (m.after.engines e).epoch = (m.before.engines e).epoch + 1 := by
  rw [Moment.after, hopens.engines, Engine.start, if_pos hstopped]
  exact ⟨rfl, rfl⟩

theorem phase_of_superseded (h : c.AwaitsStart e n i) (hn : n ≠ (c.engines e).epoch) :
    ((c.land i).engines e).phase = (c.engines e).phase ∧
      ((c.proceed i).engines e).phase = (c.engines e).phase := by
  refine ⟨phase_land i, ?_⟩
  have hduty := awaitsStart_iff.1 h
  rcases startAnswered_of_duty hduty with hsame | ⟨a, point, answer, hanswered⟩
  · rw [hsame]
  · have hepoch : point.epoch = n :=
      Duty.start.inj ((duty_of_startAnswered hanswered).symm.trans hduty)
    rw [phase_proceed_of_startAnswered hanswered]
    have hmove := (c.engines e).resumeStart_move point answer
    generalize (c.engines e).resumeStart point answer = move at hmove
    cases hmove with
    | waiting _ _ hcontrol => exact congrArg Engine.Control.phase hcontrol
    | running _ hcurrent => exact absurd (hepoch.symm.trans hcurrent.symm) hn
    | failed _ hcontrol =>
      refine (congrArg Engine.Control.phase hcontrol).trans (if_neg fun hcurrent => hn ?_)
      exact hepoch.symm.trans hcurrent.symm

theorem finishStart_of_ne {engine : Engine} {epoch : Nat} (h : engine.epoch ≠ epoch)
    (cache : Option Engine.Cached) :
    ({ engine with cache }.finishStart epoch).2 = .done (.failed .stopped) :=
  congrArg Prod.snd (if_neg h)

/-- A start that comes too late. -/
theorem resumeStart_of_belated {engine : Engine} {a : Store.Access} {point : Engine.Startup a}
    {answer : Store.Answer a} (h : point.Ensures engine.options.stateKey answer)
    (hepoch : point.epoch ≠ engine.epoch) :
    (engine.resumeStart point answer).2 = .done (.failed .stopped) := by
  cases point with
  | creating epoch =>
    obtain ⟨token, rfl⟩ := h
    exact finishStart_of_ne (Ne.symm hepoch) _
  | reading epoch =>
    obtain ⟨cached, hcached⟩ := h
    rw [Engine.resumeStart, hcached]
    exact finishStart_of_ne (Ne.symm hepoch) _

theorem procs_of_belated {a : Store.Access} {point : Engine.Startup a} {answer : Store.Answer a}
    (h : c.StartAnswered e i point answer)
    (hlate : ((c.engines e).resumeStart point answer).2 = .done (.failed .stopped)) :
    (c.step (.proceed i)).procs = c.procs.set i .ended := by
  rcases h with hq | ⟨b, now, rfl, hq⟩
  · rw [step, procs_proceed hq, onward, resumed, offspring, hlate]
    exact List.append_nil _
  · have hfailed : (Broker.resumeStart (c.seats b).options (c.engines (.ofBroker b))
        (.opening now point) answer).2 = .failed (.engine .stopped) := by
      rw [Broker.resumeStart]
      generalize (c.engines (.ofBroker b)).resumeStart point answer = move at hlate
      obtain ⟨engine, progress⟩ := move
      obtain rfl := hlate
      rfl
    rw [step, procs_proceed hq, onward, resumed, offspring, hfailed]
    exact List.append_nil _

/-! ## Runs -/

theorem staffed_run (engines : Nat → Engine.Options) (brokers : BrokerId → Broker.Options)
    (memory : Store.Memory) (ids : IdSupply) (clock : Millis) (acts : List Act) (e : EngineId) :
    (((init engines brokers memory ids clock).run acts).roster e).Staffed := by
  refine run_induction (P := fun c => (c.roster e).Staffed) ?_ (fun c act h => ?_) acts
  · exact roster_init engines brokers memory ids clock e ▸ Roster.staffed_empty
  · exact staffed_step h act

/-- **The phases of an engine in every run**, of its own or of a broker, with any other engines,
elections, brokers and clients. -/
theorem phased_run (engines : Nat → Engine.Options) (brokers : BrokerId → Broker.Options)
    (memory : Store.Memory) (ids : IdSupply) (clock : Millis) (acts : List Act) (e : EngineId) :
    (init engines brokers memory ids clock).Phased acts e := by
  let start := init engines brokers memory ids clock
  have hwell (acts : List Act) := wellFormed_run_init engines brokers memory ids clock acts e
  have hstaffed := staffed_run engines brokers memory ids clock acts e
  have hmoment : ∀ m ∈ start.trail acts,
      (m.before.roster e).WellFormed (m.before.engines e).options.maxRetries.toNat :=
    forall_trail (P := fun c => (c.roster e).WellFormed (c.engines e).options.maxRetries.toNat)
      hwell
  have hbegins : ∀ m ∈ start.trail acts, m.LeavesStopped e →
      (m.after.engines e).phase = .starting ∧
        (m.after.engines e).epoch = (m.before.engines e).epoch + 1 := by
    intro m hm hleaves
    obtain ⟨hstopped, hopens⟩ := (leavesStopped_iff (hmoment m hm)).1 hleaves
    exact begins_of_opens hstopped hopens
  constructor
  case running =>
    simp only [runsLoop_iff]
    exact Roster.running_iff (hwell acts) hstaffed
  case starting =>
    simp only [awaitsStart_iff]
    exact Roster.starting_iff (hwell acts) hstaffed
  case epoch =>
    intro m _
    exact epoch_le_step m.act
  case leaves =>
    intro m hm
    exact leavesStopped_iff (hmoment m hm)
  case begins => exact hbegins
  case fresh =>
    refine pairwise_trail fun m m' horder hleaves hleaves' => ?_
    have hm' : m' ∈ start.trail acts := horder.subset (by simp)
    have hle : (m.after.engines e).epoch ≤ (m'.before.engines e).epoch :=
      rel_of_sublist (R := fun c c' => (c.engines e).epoch ≤ (c'.engines e).epoch)
        (fun _ => epoch_le_run) horder
    have hnext := (hbegins m' hm' hleaves').2
    omega
  case superseded =>
    intro m _ i n hwaits hn hact
    obtain ⟨hland, hproceed⟩ := phase_of_superseded hwaits hn
    rcases hact with hact | hact
    · rw [Moment.after, hact]
      exact hland
    · rw [Moment.after, hact]
      exact hproceed
  case belated =>
    intro m _ i a point answer hanswered hepoch hensures hact
    have hlate := resumeStart_of_belated hensures hepoch
    rw [Moment.after, hact]
    exact ⟨.answered hanswered hlate, procs_of_belated hanswered hlate⟩

end Cluster

end LeaseQueue
