import LeaseQueue.Broker
import LeaseQueue.Proofs.Engine.Ledger

/-!
# What a step does to an engine

Only `submit`, `stop?` and `drain` touch the buffer, and nothing touches the options.  A move of a
loop leaves its batch in one of three ways:

* it goes on with the same batch, aiming a write that is a fold of it, or none yet;
* it gives every submission one error, which no write that landed calls for;
* it gives out the results of the write that landed.
-/

namespace LeaseQueue.Engine

/-- The part of an engine that calls and their answers do not touch. -/
structure Keeps (e e' : Engine) : Prop where
  options : e'.options = e.options
  buffer : e'.buffer = e.buffer

theorem Keeps.refl (e : Engine) : Keeps e e := ⟨rfl, rfl⟩

theorem start_keeps (e : Engine) : Keeps e e.start.1 := by
  unfold start
  split <;> exact ⟨rfl, rfl⟩

theorem finishStart_keeps (e : Engine) (epoch : Nat) : Keeps e (e.finishStart epoch).1 := by
  unfold finishStart
  split <;> exact ⟨rfl, rfl⟩

theorem failStart_keeps (e : Engine) (epoch : Nat) (cause : Error) :
    Keeps e (e.failStart epoch cause).1 := by
  unfold failStart
  split <;> exact ⟨rfl, rfl⟩

theorem resumeStart_keeps (e : Engine) {a : Store.Access} (point : Startup a)
    (answer : Store.Answer a) : Keeps e (e.resumeStart point answer).1 := by
  fun_cases resumeStart e point answer
  case case1 token => exact ⟨(finishStart_keeps _ _).options, (finishStart_keeps _ _).buffer⟩
  case case2 => exact .refl e
  case case3 => exact failStart_keeps _ _ _
  case case4 => exact ⟨(finishStart_keeps _ _).options, (finishStart_keeps _ _).buffer⟩
  case case5 => exact failStart_keeps _ _ _

/-- The document that an answer brings was read from an object. -/
theorem received_eq_ok {k : String} {answer : Store.Answer .read} {cached : Cached}
    (h : received k answer = .ok cached) : ∃ object, answer = .ok (some object) ∧
      Document.decode object.data = .ok cached.document ∧ object.token = cached.token := by
  revert h
  fun_cases received k answer
  case case4 object document hdecode =>
    intro h
    cases h
    exact ⟨object, rfl, hdecode, rfl⟩
  all_goals exact nofun

theorem submit_options (e : Engine) (p : Pending) : (e.submit p).1.options = e.options := by
  unfold submit
  split <;> rfl

/-! ## Batches -/

/-- The write that a pass aims. -/
def Commit.aim {a : Store.Access} : Commit a → Option Write
  | .reading _ => none
  | .writing pass document results _ => some ⟨pass.batch, document, results⟩

/-- The errand that a loop goes on with. -/
def LoopStep.errands : LoopStep → List Errand
  | .commit point => [⟨point.pass.batch, point.aim, false⟩]
  | .backOff pass _ => [⟨pass.batch, none, false⟩]
  | .rest | .giveWay | .leave => []

theorem enterLoop_errands (e : Engine) (epoch : Nat) : (e.enterLoop epoch).errands = [] := by
  unfold enterLoop
  split <;> rfl

theorem enterLoop_ne_commit (e : Engine) (epoch : Nat) {a : Store.Access} (point : Commit a) :
    e.enterLoop epoch ≠ .commit point := by
  unfold enterLoop
  split <;>
  · intro heq
    cases heq

theorem enterLoop_ne_backOff (e : Engine) (epoch : Nat) (pass : Pass) (wait : Nat) :
    e.enterLoop epoch ≠ .backOff pass wait := by
  unfold enterLoop
  split <;>
  · intro heq
    cases heq

theorem wakeLoop_errands (e : Engine) (epoch : Nat) : (e.wakeLoop epoch).errands = [] := by
  unfold wakeLoop
  split <;> rfl

/-- A move that goes on with a batch. -/
structure LoopMove.GoesOn (e : Engine) (batch : List Pending) (move : LoopMove) : Prop where
  keeps : Keeps e move.engine
  settled : move.settled = []
  errands : ∃ write, move.next.errands = [⟨batch, write, false⟩] ∧
    ∀ w, write = some w → w.batch = batch ∧ w.IsFold e.options.heartbeatTimeout

/-- A move that is done with a batch. -/
structure LoopMove.Ends (e : Engine) (settled : List Settlement) (move : LoopMove) : Prop where
  keeps : Keeps e move.engine
  settled : move.settled = settled
  errands : move.next.errands = []

theorem write_goesOn (e : Engine) (pass : Pass) (c : Cached) (now : Millis) (ids : IdSupply) :
    (e.write pass c now ids).GoesOn e pass.batch :=
  ⟨.refl e, rfl, _, rfl, by rintro w ⟨rfl⟩; exact ⟨rfl, c.document, now, ids, rfl, rfl⟩⟩

theorem attempt_goesOn (e : Engine) (pass : Pass) (now : Millis) (ids : IdSupply) :
    (e.attempt pass now ids).GoesOn e pass.batch := by
  fun_cases attempt e pass now ids
  case case1 c _ => exact write_goesOn e pass c now ids
  case case2 => exact ⟨.refl e, rfl, none, rfl, by simp⟩

theorem failPass_ends (e : Engine) (epoch : Nat) (pass : Pass) (cause : Error) (ids : IdSupply) :
    (e.failPass epoch pass cause ids).Ends e (settleAll (.error cause) pass.batch) :=
  ⟨.refl e, rfl, enterLoop_errands e epoch⟩

/-- A write that landed is answered by its token. -/
def Commit.hasLanded {a : Store.Access} : Commit a → Store.Answer a → Bool
  | .writing _ _ _ _, .ok _ => true
  | .writing _ _ _ _, .error _ => false
  | .reading _, _ => false

theorem Commit.aim_of_hasLanded {a : Store.Access} {point : Commit a} {answer : Store.Answer a}
    (h : point.hasLanded answer = true) : ∃ w, point.aim = some w ∧ w.batch = point.pass.batch := by
  cases point with
  | reading pass => cases h
  | writing pass document results expected => exact ⟨_, rfl, rfl⟩

theorem resumeCommit_cases (e : Engine) (epoch : Nat) (now : Millis) (ids : IdSupply)
    {a : Store.Access} (point : Commit a) (answer : Store.Answer a) :
    let move := e.resumeCommit epoch now ids point answer
    if point.hasLanded answer then
      ∃ w, point.aim = some w ∧ w.batch = point.pass.batch ∧
        move.Ends e (settleResults w.batch w.results)
    else move.GoesOn e point.pass.batch ∨
      ∃ cause, move.Ends e (settleAll (.error cause) point.pass.batch) := by
  fun_cases resumeCommit e epoch now ids point answer
  case case1 pass cached answer _ =>
    have h := write_goesOn { e with cache := some cached } pass cached now ids
    exact .inl ⟨⟨h.keeps.options, h.keeps.buffer⟩, h.settled, h.errands⟩
  case case2 pass cause answer _ => exact .inr ⟨cause, failPass_ends e epoch pass cause ids⟩
  case case3 pass document results expected token e' =>
    exact ⟨_, rfl, rfl, ⟨rfl, rfl⟩, rfl, enterLoop_errands _ _⟩
  case case4 pass document results expected key e' hlast =>
    refine .inr ⟨.retriesExhausted (pass.conflicts + 1), ?_⟩
    have h := failPass_ends e' epoch pass (.retriesExhausted (pass.conflicts + 1)) ids
    exact ⟨⟨h.keeps.options, h.keeps.buffer⟩, h.settled, h.errands⟩
  case case5 pass document results expected key e' hmore conflicts =>
    exact .inl ⟨⟨rfl, rfl⟩, rfl, none, rfl, by simp⟩
  case case6 pass document results expected cause hcause =>
    exact .inr ⟨.storage cause, failPass_ends e epoch pass (.storage cause) ids⟩

theorem resumeCommit_keeps (e : Engine) (epoch : Nat) (now : Millis) (ids : IdSupply)
    {a : Store.Access} (point : Commit a) (answer : Store.Answer a) :
    Keeps e (e.resumeCommit epoch now ids point answer).engine := by
  have h := resumeCommit_cases e epoch now ids point answer
  dsimp only at h
  split at h
  · obtain ⟨w, _, _, hends⟩ := h
    exact hends.keeps
  · rcases h with hgoes | ⟨cause, hends⟩
    · exact hgoes.keeps
    · exact hends.keeps

theorem drain_nil {e : Engine} (h : e.buffer = []) (epoch : Nat) (now : Millis)
    (ids : IdSupply) : (e.drain epoch now ids).Ends e [] := by
  rw [drain, h]
  exact ⟨.refl e, rfl, enterLoop_errands e epoch⟩

theorem drain_goesOn {e : Engine} (h : e.buffer ≠ []) (epoch : Nat) (now : Millis)
    (ids : IdSupply) : (e.drain epoch now ids).GoesOn { e with buffer := [] } e.buffer := by
  have hdrain : e.drain epoch now ids = { e with buffer := [] }.attempt ⟨e.buffer, 0⟩ now ids := by
    unfold drain
    split
    next hnil => exact absurd hnil h
    · rfl
  rw [hdrain]
  exact attempt_goesOn { e with buffer := [] } ⟨e.buffer, 0⟩ now ids

theorem drain_options (e : Engine) (epoch : Nat) (now : Millis) (ids : IdSupply) :
    (e.drain epoch now ids).engine.options = e.options := by
  by_cases h : e.buffer = []
  · exact (drain_nil h epoch now ids).keeps.options
  · exact (drain_goesOn h epoch now ids).keeps.options

end LeaseQueue.Engine

namespace LeaseQueue.Broker

theorem openEngine_engine (o : Options) (now : Millis)
    (move : Engine × Engine.Startup.Progress) : (openEngine o now move).1 = move.1 := by
  obtain ⟨engine, result | _⟩ := move
  · cases result <;> rfl
  · rfl

theorem resumeStart_keeps (o : Options) (e : Engine) {a : Store.Access} (point : Startup a)
    (answer : Store.Answer a) : Engine.Keeps e (resumeStart o e point answer).1 := by
  fun_cases resumeStart o e point answer
  case case5 | case6 =>
    rw [openEngine_engine]
    exact Engine.start_keeps e
  case case7 =>
    rw [openEngine_engine]
    exact Engine.resumeStart_keeps e _ _
  all_goals exact .refl e

end LeaseQueue.Broker
