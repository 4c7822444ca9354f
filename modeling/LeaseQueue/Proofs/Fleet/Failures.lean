import LeaseQueue.Proofs.Fleet.Basic
import LeaseQueue.Proofs.Store.Failures

/-!
# What failures leave behind

At an object store that does nothing where it reports an error, a submission whose verdict is an
error is in no document: the store has refused every write that had it.

  `object? (m.after (step (r.server store))).state = object? m.before.state`

The exception is a store that has done the write but does not tell the token.  Then the write counts
as failed, and this very failure is the verdict of its batch.
-/

namespace LeaseQueue.Fleet

open Cluster (BrokerId EngineId ProcId)
open Engine (Ledger Pending Ticket)

variable {σ : Type}

/-- A pass of an engine replaces the document by one that has this submission. -/
structure Writes (m : Moment σ) (i : ProcId) (e : EngineId) (ticket : Ticket)
    (call : Store.Call .put) : Prop where
  act : m.act = .move (.land i)
  sent : ∃ (epoch : Nat) (point : Engine.Commit .put) (failure : Option Store.Error),
    m.before.cluster.procs[i]? = some (.awaiting (.commit e epoch point) (.sent failure)) ∧
    (∃ p ∈ point.pass.batch, p.ticket = ticket) ∧
    call = point.call (m.before.cluster.engines e).options

/-- What errors say about the objects of a store. -/
structure Harmless (r : Store.Remote) (store : Store.ObjectStore σ)
    (object? : σ → String → Option Bytes) (start : Fleet σ) (acts : List (Act σ)) : Prop where
  put : ∀ (s : σ) (call : Store.Call .put) (cause : Store.Error),
    ((r.server store).answer s call).1 = .error cause →
    object? ((r.server store).answer s call).2 = object? s ∨
      r.Nameless store s call ∧ cause = r.unnamed call.operation
  submission : ∀ ticket cause,
    (start.run (r.server store) acts).cluster.verdict? ticket = some (.error cause) →
    ∀ m ∈ start.trail (r.server store) acts, ∀ i e call, Writes m i e ticket call →
      object? (m.after (step (r.server store))).state = object? m.before.state ∨
        r.Nameless store m.before.state call ∧ cause = .storage (r.unnamed call.operation)

/-- A pass whose write has failed hears of it, or everybody in its batch has heard of it. -/
inductive Hears (c : Cluster) (i : ProcId) (e : EngineId) (batch : List Pending)
    (cause : Store.Error) : Prop where
  | waits {epoch : Nat} {point : Engine.Commit .put} (hbatch : point.pass.batch = batch)
    (hq : c.procs[i]? = some (.awaiting (.commit e epoch point) (.landed (.error cause))))
  | told (h : ∀ p ∈ batch, ⟨p.ticket, .error (.storage cause)⟩ ∈ c.settled e)

variable {server : Store.Server σ} {f : Fleet σ} {c : Cluster} {m : Moment σ} {i : ProcId}
  {e : EngineId} {ticket : Ticket} {batch : List Pending} {call : Store.Call .put}
  {cause : Store.Error}

/-! ## A failure and its batch -/

/-- A failure other than a conflict is the verdict of the whole batch. -/
theorem settled_proceed {epoch : Nat} {point : Engine.Commit .put}
    (hq : c.procs[i]? = some (.awaiting (.commit e epoch point) (.landed (.error cause))))
    (hcause : ∀ key, cause ≠ .conflict key) :
    ∀ p ∈ point.pass.batch,
      ⟨p.ticket, .error (.storage cause)⟩ ∈ (c.step (.proceed i)).settled e := by
  let batch := point.pass.batch
  have hmove : (c.engines e).resumeCommit epoch c.clock c.ids point (.error cause) =
      (c.engines e).failPass epoch point.pass (.storage cause) c.ids := by
    cases point with
    | writing pass document results expected =>
      cases cause with
      | conflict key => exact absurd rfl (hcause key)
      | backend | misconfigured => rfl
  have hstep : c.step (.proceed i) =
      c.followMove i e epoch ((c.engines e).failPass epoch point.pass (.storage cause) c.ids) := by
    rw [← hmove, Cluster.step, Cluster.proceed, hq]
    rfl
  have hlog : (c.step (.proceed i)).log =
      ((Engine.settleAll (.error (.storage cause)) batch).map (.settled e)).reverse ++ c.log := by
    rw [hstep, Cluster.followMove, Engine.failPass, Engine.enterLoop]
    split <;> rfl
  intro p hp
  let s : Engine.Settlement := ⟨p.ticket, .error (.storage cause)⟩
  have hsettled : s ∈ Engine.settleAll (.error (.storage cause)) batch :=
    Ledger.mem_settleAll.2 ⟨p, hp, rfl⟩
  refine List.mem_filterMap.2 ⟨.settled e s, ?_, if_pos rfl⟩
  rw [hlog]
  exact List.mem_append_left _ (List.mem_reverse.2 (List.mem_map_of_mem hsettled))

theorem Hears.step (h : Hears f.cluster i e batch cause) (hcause : ∀ key, cause ≠ .conflict key)
    (act : Act σ) : Hears (f.step server act).cluster i e batch cause := by
  cases h with
  | waits hbatch hq =>
    by_cases hact : act = .move (.proceed i)
    · subst hact hbatch
      exact .told (settled_proceed hq hcause)
    · exact .waits hbatch (getElem?_step_of_landed server hq hact)
  | told h => exact .told fun p hp => (f.steps_step server act e).subset.2 (h p hp)

theorem Hears.run (h : Hears f.cluster i e batch cause) (hcause : ∀ key, cause ≠ .conflict key)
    (acts : List (Act σ)) : Hears (f.run server acts).cluster i e batch cause := by
  induction acts generalizing f with
  | nil => exact h
  | cons act acts ih => exact ih (h.step hcause act)

/-- The batch that a pass carries is on the ledger of its engine. -/
theorem exists_errand {epoch : Nat} {point : Engine.Commit .put} {flight : Cluster.Flight .put}
    (hq : c.procs[i]? = some (.awaiting (.commit e epoch point) flight)) :
    ∃ (errand : Engine.Errand) (rest : List Engine.Errand),
      errand.batch = point.pass.batch ∧ (c.ledger e).errands.Perm (errand :: rest) := by
  have herrands := Cluster.errands_perm (e := e) hq
  cases flight <;> rw [Cluster.Proc.errands, if_pos rfl] at herrands <;>
    exact ⟨_, _, rfl, herrands⟩

/-- Whoever is in the batch is told of this failure, if of any. -/
theorem Hears.cause_eq (h : Hears c i e batch cause) (hcounted : c.Counted)
    (hsound : ∀ e, Ledger.Sound (c.engines e).options.heartbeatTimeout (c.ledger e)) {p : Pending}
    (hp : p ∈ batch) (htaken : p ∈ (c.ledger e).taken) {found : Engine.Error}
    (hverdict : c.verdict? p.ticket = some (.error found)) : found = .storage cause := by
  have hsettled := hcounted.settled_of_verdict hsound htaken hverdict
  cases h with
  | waits hbatch hq =>
    obtain ⟨errand, rest, herrand, herrands⟩ := exists_errand hq
    have hcarried : p ∈ errand.batch := herrand ▸ hbatch ▸ hp
    exact absurd rfl ((hsound e).not_settled herrands hcarried hsettled)
  | told h =>
    cases (hsound e).eq_of_settled (h p hp) hsettled rfl
    rfl

/-! ## A write and its answer -/

theorem Writes.state_after (h : Writes m i e ticket call) :
    (m.after (Fleet.step server)).state = (server.answer m.before.state call).2 := by
  obtain ⟨epoch, point, failure, hq, -, rfl⟩ := h.sent
  rw [Run.Moment.after, h.act, Fleet.step, land_of_sent _ hq]
  rfl

/-- A write that the server reports as done is one of those that landed. -/
theorem Writes.written (h : Writes m i e ticket call) {token : Store.Token}
    (hanswer : (server.answer m.before.state call).1 = .ok token) :
    ∃ w ∈ (m.after (Fleet.step server)).cluster.written e, w.folds ticket := by
  obtain ⟨epoch, point, failure, hq, hticket, rfl⟩ := h.sent
  cases point with
  | writing pass document results expected =>
    let write : Engine.Write := ⟨pass.batch, document, results⟩
    let caller : Cluster.Caller .put := .commit e epoch (.writing pass document results expected)
    let call := m.before.cluster.callOf caller
    have hevent : Cluster.Event.written? e (.landed m.before.cluster.clock caller call
        (server.answer m.before.state call).1) = some write := by
      rw [show (server.answer m.before.state call).1 = .ok token from hanswer]
      exact if_pos (by simp [Engine.Commit.hasLanded])
    refine ⟨write, ?_, Engine.Write.folds_iff.2 hticket⟩
    rw [Run.Moment.after, h.act, Fleet.step, land_of_sent _ hq]
    exact List.mem_filterMap.2 ⟨_, List.mem_cons_self, hevent⟩

/-- A batch whose write the server reports as failed will hear of it. -/
theorem Writes.hears (h : Writes m i e ticket call)
    (hsound : ∀ e, Ledger.Sound (m.before.cluster.engines e).options.heartbeatTimeout
      (m.before.cluster.ledger e))
    (hanswer : (server.answer m.before.state call).1 = .error cause) :
    ∃ batch, (∃ p ∈ batch, p.ticket = ticket ∧ p ∈ (m.before.cluster.ledger e).taken) ∧
      Hears (m.after (Fleet.step server)).cluster i e batch cause := by
  obtain ⟨epoch, point, failure, hq, ⟨p, hp, hticket⟩, rfl⟩ := h.sent
  refine ⟨point.pass.batch, ⟨p, hp, hticket, ?_⟩, ?_⟩
  · obtain ⟨errand, rest, herrand, herrands⟩ := exists_errand hq
    have hmem : errand ∈ (m.before.cluster.ledger e).errands :=
      herrands.mem_iff.2 List.mem_cons_self
    exact (hsound e).same p (List.mem_append_right _
      (List.mem_flatMap.2 ⟨errand, hmem, herrand ▸ hp⟩))
  · obtain ⟨hi, -⟩ := List.getElem?_eq_some_iff.1 hq
    have hlanded : (m.before.answered server i (.commit e epoch point)).cluster.procs[i]? =
        some (.awaiting (.commit e epoch point) (.landed (.error cause))) := by
      rw [← hanswer]
      exact List.getElem?_set_self hi
    rw [Run.Moment.after, h.act, Fleet.step, land_of_sent _ hq]
    exact .waits rfl hlanded

/-! ## Every failure of a run -/

/-- If a submission has failed, then so has each write that has it, and a failure other than a
conflict is its verdict. -/
theorem Writes.failed {engines : Nat → Engine.Options} {brokers : BrokerId → Broker.Options}
    {ids : IdSupply} {clock : Millis} {state : σ} {acts : List (Act σ)} {found : Engine.Error}
    (h : Writes m i e ticket call)
    (hm : m ∈ (init engines brokers ids clock state).trail server acts)
    (hverdict : ((init engines brokers ids clock state).run server acts).cluster.verdict? ticket =
      some (.error found)) :
    ∃ cause, (server.answer m.before.state call).1 = .error cause ∧
      ((∀ key, cause ≠ .conflict key) → found = .storage cause) := by
  have hcounted := counted_run server engines brokers ids clock state acts
  have hsound := sound_run server engines brokers ids clock state
  have hbefore := Run.forall_trail (P := fun f : Fleet σ => ∀ e, Ledger.Sound
    (f.cluster.engines e).options.heartbeatTimeout (f.cluster.ledger e)) hsound m hm
  obtain ⟨rest, hrest⟩ := Run.exists_rest hm
  replace hsound := hsound acts
  rw [run, hrest] at hverdict hcounted hsound
  cases hanswer : (server.answer m.before.state call).1 with
  | ok token =>
    obtain ⟨w, hw, hfolds⟩ := h.written hanswer
    have hgrows := Ledger.Grows.of_steps ((m.after (Fleet.step server)).steps_run server rest e)
    exact absurd hfolds (hcounted.not_folded hsound hverdict (hgrows.written hw))
  | error cause =>
    refine ⟨cause, rfl, fun hcause => ?_⟩
    obtain ⟨batch, ⟨p, hp, rfl, htaken⟩, hhears⟩ := h.hears hbefore hanswer
    have htaken' := (m.before.steps_run server (m.act :: rest) e).subset.1 htaken
    exact (hhears.run hcause rest).cause_eq hcounted hsound hp htaken' hverdict

/-- **A failed submission is in no document**, whoever else uses the store, unless the store does
not tell the token of a write. -/
theorem harmless_run (r : Store.Remote) (store : Store.ObjectStore σ)
    (object? : σ → String → Option Bytes) (engines : Nat → Engine.Options)
    (brokers : BrokerId → Broker.Options) (ids : IdSupply) (clock : Millis) (state : σ)
    (acts : List (Act σ)) (hspares : store.Spares object?) :
    Harmless r store object? (init engines brokers ids clock state) acts where
  put s call cause := Store.Remote.spared_or_nameless hspares
  submission ticket cause hverdict m hm i e call hwrites := by
    obtain ⟨failure, hanswer, htold⟩ := hwrites.failed hm hverdict
    rw [hwrites.state_after]
    refine (Store.Remote.spared_or_nameless hspares hanswer).imp_right ?_
    rintro ⟨hnameless, rfl⟩
    exact ⟨hnameless, htold nofun⟩

/-! ## A write that is refused, and one whose token is missing -/

def bucket : Store.Remote := ⟨"s3", none, .entityTag⟩

/-- One engine, whose writes are not tried again. -/
def hasty : Fleet Store.ObjectMap :=
  init (fun _ => ⟨"queue.json", 50, 30000, 50, 0⟩) (fun b => .standard (toString b)) ⟨toString, 0⟩ 0
    .empty

/-- The engine starts and is about to write one job. -/
def enqueuing : List (Act Store.ObjectMap) :=
  [.move (.startEngine (.lone 0)), .move (.land 0), .move (.proceed 0), .move (.land 0),
    .move (.proceed 0), .move (.proceed 1),
    .move (.submit (.lone 0) (.enqueue [⟨.null, none, none⟩])), .move (.proceed 1),
    .move (.proceed 1)]

/-- Somebody else replaces the document just before. -/
def overtaken : List (Act Store.ObjectMap) :=
  enqueuing ++
    [.intrude ⟨[("queue.json", ⟨[123, 125], 7⟩)], 8⟩, .move (.land 1), .move (.proceed 1)]

theorem harmless_overtaken :
    let f := hasty.run (bucket.server Store.ObjectMap.objectStore) overtaken
    Store.ObjectMap.objectStore.Spares Store.ObjectMap.bytes? ∧
    Harmless bucket Store.ObjectMap.objectStore Store.ObjectMap.bytes? hasty overtaken ∧
    f.cluster.verdict? 0 = some (.error (.retriesExhausted 1)) ∧
    f.state.bytes? "queue.json" = some [123, 125] :=
  ⟨Store.ObjectMap.spares, harmless_run _ _ _ _ _ _ _ _ _ Store.ObjectMap.spares, rfl, rfl⟩

/-- Tells no token of an object that it has replaced. -/
def forgetful : Store.ObjectStore Store.ObjectMap where
  reply
    | m, .put path data (.update expected) =>
      let (reply, m) := m.serve (.put path data (.update expected))
      (reply.map fun _ => ⟨none, none⟩, m)
    | m, request => m.serve request

theorem spares_forgetful : forgetful.Spares Store.ObjectMap.bytes? := by
  intro m path data mode cause h
  cases mode with
  | create => exact Store.ObjectMap.spares m path data .create cause h
  | update expected =>
    refine Store.ObjectMap.spares m path data (.update expected) cause ?_
    revert h
    simp only [forgetful, Store.ObjectMap.objectStore]
    cases (m.serve (.put path data (.update expected))).1 with
    | ok revision =>
      intro h
      cases h
    | error refusal =>
      intro h
      cases h
      rfl

/-- A create that fails has stored its object, and a job whose submission fails is in the queue. -/
theorem stored_despite_failure :
    let gcs : Store.Remote := ⟨"gcs", none, .generation⟩
    let created := (gcs.server Store.ObjectMap.objectStore).answer .empty (.create "k" [120])
    let f := hasty.run (bucket.server forgetful)
      (enqueuing ++ [.move (.land 1), .move (.proceed 1)])
    (Store.ObjectMap.objectStore.Spares Store.ObjectMap.bytes? ∧
      created.1 = .error (gcs.unnamed "create") ∧ created.2.bytes? "k" = some [120]) ∧
    forgetful.Spares Store.ObjectMap.bytes? ∧
    f.cluster.verdict? 0 = some (.error (.storage (bucket.unnamed "write"))) ∧
    ∃ d : Document, f.state.bytes? "queue.json" = some d.encode ∧ d.jobs.map (·.id) = ["0"] :=
  ⟨⟨Store.ObjectMap.spares, rfl, rfl⟩, spares_forgetful, rfl,
    ⟨none, 0, [⟨"0", .unclaimed, .null, none, 0, 0, none⟩], 0⟩, rfl, rfl⟩

end LeaseQueue.Fleet
