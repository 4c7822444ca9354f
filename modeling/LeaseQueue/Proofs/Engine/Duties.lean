import LeaseQueue.Proofs.Engine.Moves
import LeaseQueue.Proofs.Engine.Roster

/-!
# What a step does to the roster of an engine

A start that goes on stays in its epoch, and what it comes to depends on whether that epoch is over.
A loop that goes on with its pass does not look at the epoch:

  `(point.stageAfter answer).Next e.options.maxRetries.toNat s`
-/

namespace LeaseQueue.Engine

/-! ## Starts -/

def Startup.epoch {a : Store.Access} : Startup a → Nat
  | .creating epoch | .reading epoch => epoch

/-- What a start comes to. -/
inductive StartMove (e : Engine) (epoch : Nat) : Engine × Startup.Progress → Prop where
  | waiting {engine : Engine} {a : Store.Access} (point : Startup a) (h : point.epoch = epoch)
    (hcontrol : engine.control = e.control) : StartMove e epoch (engine, .waiting point)
  | running {engine : Engine} (kick : Bool) (h : e.epoch = epoch)
    (hcontrol : engine.control = { e.control with phase := .running }) :
    StartMove e epoch (engine, .done (.running epoch kick))
  | failed {engine : Engine} (cause : Error)
    (hcontrol : engine.control =
      { e.control with phase := if e.epoch = epoch then .stopped else e.phase }) :
    StartMove e epoch (engine, .done (.failed cause))

theorem failStart_move (e : Engine) (epoch : Nat) (cause : Error) :
    StartMove e epoch (e.failStart epoch cause) := by
  unfold failStart
  apply StartMove.failed
  by_cases h : e.epoch = epoch
  · rw [if_pos h, if_pos h]
    rfl
  · rw [if_neg h, if_neg h]
    rfl

theorem finishStart_move (e : Engine) (epoch : Nat) (cache : Option Cached) :
    StartMove e epoch (finishStart { e with cache } epoch) := by
  unfold finishStart
  by_cases h : e.epoch = epoch
  · rw [if_pos h]
    exact .running _ h rfl
  · rw [if_neg h]
    refine .failed _ ?_
    rw [if_neg h]
    rfl

theorem resumeStart_move (e : Engine) {a : Store.Access} (point : Startup a)
    (answer : Store.Answer a) : StartMove e point.epoch (e.resumeStart point answer) := by
  fun_cases resumeStart e point answer
  case case1 token => exact finishStart_move e _ _
  case case2 epoch key => exact .waiting (.reading epoch) rfl rfl
  case case3 => exact failStart_move e _ _
  case case4 => exact finishStart_move e _ _
  case case5 => exact failStart_move e _ _

/-! ## Loops -/

/-- A count that is less than another one of its kind has room for one more. -/
theorem toNat_add_one_of_lt {k n : UInt32} (h : k < n) : (k + 1).toNat = k.toNat + 1 := by
  have hlt := UInt32.lt_iff_toNat_lt.1 h
  have hn := n.toNat_lt
  rw [UInt32.toNat_add, UInt32.toNat_one, Nat.mod_eq_of_lt (by omega)]

theorem add_one_le_of_lt {k n : UInt32} (h : k < n) : k + 1 ≤ n := by
  rw [UInt32.le_iff_toNat_le, toNat_add_one_of_lt h]
  exact UInt32.lt_iff_toNat_lt.1 h

/-- Where a loop stands whose call is on its way. -/
def Commit.stage {a : Store.Access} : Commit a → Stage
  | .reading pass => .reading pass
  | .writing pass _ _ _ => .writing pass

/-- Where a loop stands whose call has taken effect. -/
def Commit.stageAfter {a : Store.Access} (point : Commit a) (answer : Store.Answer a) : Stage :=
  match point with
  | .reading pass => .reading pass
  | .writing pass document results expected =>
    .answered pass ((Commit.writing pass document results expected).hasLanded answer)

theorem Commit.batch_of_stage {a : Store.Access} (point : Commit a) {due : Due}
    (h : point.stage.due? = some due) : point.pass.batch = due.batch := by
  cases point <;> cases h <;> rfl

theorem Commit.batch_of_stageAfter {a : Store.Access} (point : Commit a) {answer : Store.Answer a}
    {due : Due} (h : (point.stageAfter answer).due? = some due) :
    point.pass.batch = due.batch := by
  cases point with
  | reading =>
    cases h
    rfl
  | writing =>
    cases answer with
    | ok => cases h
    | error =>
      cases h
      rfl

/-- What a loop of some epoch does from now on. -/
def LoopStep.duty (epoch : Nat) : LoopStep → Duty
  | .rest => .loop epoch .resting
  | .giveWay => .loop epoch .yielding
  | .commit point => .loop epoch point.stage
  | .backOff pass _ => .loop epoch (.backingOff pass)
  | .leave => .off

theorem wakeLoop_of_isCurrent {e : Engine} {epoch : Nat} (h : e.isCurrent epoch) :
    e.wakeLoop epoch = .giveWay := if_pos h

theorem wakeLoop_duty {e : Engine} {epoch : Nat} (h : ¬ e.isCurrent epoch) :
    (e.wakeLoop epoch).duty epoch = if e.isCurrent epoch then .loop epoch .resting else .off := by
  rw [wakeLoop, if_neg h, if_neg h]
  rfl

theorem enterLoop_duty (e : Engine) (epoch : Nat) :
    (e.enterLoop epoch).duty epoch = if e.isCurrent epoch then .loop epoch .resting else .off := by
  unfold enterLoop
  split <;> rfl

/-- Beginning a pass, or beginning it anew, does not look at the epoch. -/
theorem attempt_move (e : Engine) (epoch : Nat) (pass : Pass) (now : Millis) (ids : IdSupply) :
    (e.attempt pass now ids).engine = e ∧
    ∃ s, s.Begins pass ∧ (e.attempt pass now ids).next.duty epoch = .loop epoch s := by
  fun_cases attempt e pass now ids
  case case1 c _ => exact ⟨rfl, .writing pass, .inr rfl, rfl⟩
  case case2 => exact ⟨rfl, .reading pass, .inl rfl, rfl⟩

theorem drain_of_nil {e : Engine} (h : e.buffer = []) (epoch : Nat) (now : Millis)
    (ids : IdSupply) :
    e.drain epoch now ids = ⟨e, e.enterLoop epoch, [], ids⟩ := by
  rw [drain, h]

theorem drain_of_ne_nil {e : Engine} (h : e.buffer ≠ []) (epoch : Nat) (now : Millis)
    (ids : IdSupply) :
    e.drain epoch now ids = { e with buffer := [] }.attempt ⟨e.buffer, 0⟩ now ids := by
  unfold drain
  split
  next hnil => exact absurd hnil h
  · rfl

/-- What a pass comes to when its call is answered: it rests, or goes on. -/
theorem resumeCommit_move (e : Engine) (epoch : Nat) (now : Millis) (ids : IdSupply)
    {a : Store.Access} (point : Commit a) (answer : Store.Answer a) :
    let move := e.resumeCommit epoch now ids point answer
    move.engine.control = e.control ∧
    (((point.stageAfter answer).CanRest e.buffer ∧
        move.next.duty epoch = if e.isCurrent epoch then .loop epoch .resting else .off) ∨
      ∃ s, (point.stageAfter answer).Next e.options.maxRetries.toNat s ∧
        move.next.duty epoch = .loop epoch s) := by
  fun_cases resumeCommit e epoch now ids point answer
  case case1 pass cached answer _ => exact ⟨rfl, .inr ⟨.writing pass, .read pass, rfl⟩⟩
  case case2 => exact ⟨rfl, .inl ⟨trivial, enterLoop_duty e epoch⟩⟩
  case case3 => exact ⟨rfl, .inl ⟨trivial, enterLoop_duty _ epoch⟩⟩
  case case4 => exact ⟨rfl, .inl ⟨trivial, enterLoop_duty _ epoch⟩⟩
  case case5 pass document results expected key e' hmore conflicts =>
    have hlt : pass.conflicts < e.options.maxRetries := UInt32.not_le.1 hmore
    have hcount : conflicts.toNat = pass.conflicts.toNat + 1 := toNat_add_one_of_lt hlt
    have hretries := UInt32.le_iff_toNat_le.1 (add_one_le_of_lt hlt)
    exact ⟨rfl, .inr ⟨_, .backOff pass conflicts hcount hretries, rfl⟩⟩
  case case6 => exact ⟨rfl, .inl ⟨trivial, enterLoop_duty _ epoch⟩⟩

end LeaseQueue.Engine
