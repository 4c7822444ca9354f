import LeaseQueue.Proofs.Engine.Duties
import LeaseQueue.Proofs.Store.Memory

/-!
# What an engine writes over

An engine has a document from an answer of the store, and writes what a pass makes of it under the
token that came with it:

  `(e.attempt pass now ids).next = .commit (.writing pass' document results expected) →`
  `∃ cached, e.cache = some cached ∧ expected = cached.token ∧ …`

No answer but the one that it waits for changes what it has.
-/

namespace LeaseQueue.Engine

/-- Document and results of the write come from one pass over this document. -/
def Write.FoldsOver (timeout : Millis) (base : Document) (w : Write) : Prop :=
  ∃ now ids,
    w.document = (base.pass (w.batch.map (·.mutation)) now timeout ids).document ∧
    w.results = (base.pass (w.batch.map (·.mutation)) now timeout ids).result

/-- A document that an answer brings, or whose put it confirms. -/
inductive Learns : {a : Store.Access} → Store.Call a → Store.Answer a → Cached → Prop where
  | read {key : String} {object : Store.Object} {document : Document}
    (h : Document.decode object.data = .ok document) :
    Learns (.read key) (.ok (some object)) ⟨document, object.token⟩
  | put {call : Store.Call .put} {token : Store.Token} {document : Document}
    (h : Store.Memory.payload call = document.encode) : Learns call (.ok token) ⟨document, token⟩

variable {e : Engine} {cached : Cached}

/-! ## What an engine has -/

theorem learns_of_received {key : String} {answer : Store.Answer .read}
    (h : received key answer = .ok cached) : Learns (.read key) answer cached := by
  obtain ⟨object, rfl, hdecode, htoken⟩ := received_eq_ok h
  obtain ⟨document, token⟩ := cached
  cases htoken
  exact .read hdecode

theorem submit_cache (e : Engine) (p : Pending) : (e.submit p).1.cache = e.cache := by
  unfold submit
  split <;> rfl

theorem start_cache (e : Engine) : e.start.1.cache = e.cache := by
  unfold start
  split <;> rfl

theorem stop?_cache {engine : Engine} {settled : List Settlement}
    (h : e.stop? = some (engine, settled)) : engine.cache = e.cache := by
  simp only [stop?] at h
  split at h
  · cases h
  · cases h
    rfl

theorem finishStart_cache (e : Engine) (epoch : Nat) : (e.finishStart epoch).1.cache = e.cache := by
  unfold finishStart
  split <;> rfl

theorem failStart_cache (e : Engine) (epoch : Nat) (cause : Error) :
    (e.failStart epoch cause).1.cache = e.cache := by
  unfold failStart
  split <;> rfl

theorem attempt_cache (e : Engine) (pass : Pass) (now : Millis) (ids : IdSupply) :
    (e.attempt pass now ids).engine.cache = e.cache := by
  fun_cases attempt e pass now ids <;> rfl

theorem drain_cache (e : Engine) (epoch : Nat) (now : Millis) (ids : IdSupply) :
    (e.drain epoch now ids).engine.cache = e.cache := by
  by_cases hbuffer : e.buffer = []
  · rw [drain_of_nil hbuffer]
  · rw [drain_of_ne_nil hbuffer]
    exact attempt_cache _ _ _ _

/-- What an engine has after the answer to its start. -/
theorem resumeStart_cache {a : Store.Access} {point : Startup a} {answer : Store.Answer a}
    (h : (e.resumeStart point answer).1.cache = some cached) :
    e.cache = some cached ∨ Learns (point.call e.options) answer cached := by
  revert h
  fun_cases resumeStart e point answer
  case case1 epoch token =>
    intro h
    rw [finishStart_cache] at h
    cases h
    exact .inr (.put rfl)
  case case2 => exact .inl
  case case3 =>
    rw [failStart_cache]
    exact .inl
  case case4 epoch cached' answer hreceived =>
    intro h
    rw [finishStart_cache] at h
    cases h
    exact .inr (learns_of_received hreceived)
  case case5 =>
    rw [failStart_cache]
    exact .inl

/-- A start forgets nothing. -/
theorem resumeStart_uncached {a : Store.Access} {point : Startup a} {answer : Store.Answer a}
    (h : (e.resumeStart point answer).1.cache = none) : e.cache = none := by
  revert h
  fun_cases resumeStart e point answer
  case case2 => exact id
  case case3 | case5 =>
    rw [failStart_cache]
    exact id
  all_goals
    intro hnone
    rw [finishStart_cache] at hnone
    cases hnone

/-- A start that made it has learned what there is. -/
theorem resumeStart_running {a : Store.Access} {point : Startup a} {answer : Store.Answer a}
    (h : (e.resumeStart point answer).1.phase = .running) : e.phase = .running ∨
      ∃ cached, (e.resumeStart point answer).1.cache = some cached ∧
        Learns (point.call e.options) answer cached := by
  have hfail (epoch : Nat) (cause : Error) (hphase : (e.failStart epoch cause).1.phase = .running) :
      e.phase = .running := by
    unfold failStart at hphase
    split at hphase
    · cases hphase
    · exact hphase
  revert h
  fun_cases resumeStart e point answer
  case case1 epoch token => exact fun _ => .inr ⟨_, finishStart_cache _ _, .put rfl⟩
  case case2 => exact .inl
  case case3 => exact fun hphase => .inl (hfail _ _ hphase)
  case case4 epoch cached answer hreceived =>
    exact fun _ => .inr ⟨cached, finishStart_cache _ _, learns_of_received hreceived⟩
  case case5 => exact fun hphase => .inl (hfail _ _ hphase)

theorem resumeCommit_cache {epoch : Nat} {now : Millis} {ids : IdSupply} {a : Store.Access}
    {point : Commit a} {answer : Store.Answer a}
    (h : (e.resumeCommit epoch now ids point answer).engine.cache = some cached) :
    e.cache = some cached ∨ Learns (point.call e.options) answer cached := by
  revert h
  fun_cases resumeCommit e epoch now ids point answer
  case case1 pass cached' answer hreceived =>
    intro h
    cases h
    exact .inr (learns_of_received hreceived)
  case case2 => exact .inl
  case case3 pass document results expected token e' =>
    intro h
    cases h
    exact .inr (.put rfl)
  case case4 | case5 =>
    intro h
    cases h
  case case6 => exact .inl

/-! ## What it writes -/

variable {pass pass' : Pass} {document : Document} {results : List MutationResult}
  {expected : Store.Token} {epoch : Nat} {now : Millis} {ids : IdSupply}

theorem attempt_writing (h : (e.attempt pass now ids).next =
      .commit (.writing pass' document results expected)) :
    ∃ cached, e.cache = some cached ∧ expected = cached.token ∧
      Write.FoldsOver e.options.heartbeatTimeout cached.document
        ⟨pass'.batch, document, results⟩ := by
  revert h
  fun_cases attempt e pass now ids
  case case1 cached hcached =>
    intro h
    cases h
    exact ⟨cached, hcached, rfl, now, ids, rfl, rfl⟩
  case case2 =>
    intro h
    cases h

theorem drain_writing (h : (e.drain epoch now ids).next =
      .commit (.writing pass' document results expected)) :
    ∃ cached, e.cache = some cached ∧ expected = cached.token ∧
      Write.FoldsOver e.options.heartbeatTimeout cached.document
        ⟨pass'.batch, document, results⟩ := by
  by_cases hbuffer : e.buffer = []
  · rw [drain_of_nil hbuffer] at h
    exact absurd h (enterLoop_ne_commit _ _ _)
  · rw [drain_of_ne_nil hbuffer] at h
    exact attempt_writing (e := { e with buffer := [] }) h

/-- Whoever writes after an answer has just read what it writes over. -/
theorem resumeCommit_writing {a : Store.Access} {point : Commit a} {answer : Store.Answer a}
    (h : (e.resumeCommit epoch now ids point answer).next =
      .commit (.writing pass' document results expected)) :
    ∃ cached, Learns (point.call e.options) answer cached ∧ expected = cached.token ∧
      Write.FoldsOver e.options.heartbeatTimeout cached.document
        ⟨pass'.batch, document, results⟩ := by
  revert h
  fun_cases resumeCommit e epoch now ids point answer
  case case1 pass cached answer hreceived =>
    intro h
    cases h
    exact ⟨cached, learns_of_received hreceived, rfl, now, ids, rfl, rfl⟩
  case case5 =>
    intro h
    cases h
  all_goals exact fun h => absurd h (enterLoop_ne_commit _ _ _)

end LeaseQueue.Engine
