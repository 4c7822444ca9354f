import LeaseQueue.Engine.Loop
import LeaseQueue.Proofs.Queue.Passes
import Mathlib.Data.List.Nodup
import Mathlib.Data.List.Pairwise
import Mathlib.Data.List.Perm.Basic
import Mathlib.Logic.Relation

/-!
# The ledger of an engine

What an engine owes to its submitters, apart from stores, loops and epochs.  A submission is taken,
waits in the buffer, is drained with a batch, and is settled; a batch is on its way in exactly one
errand, which may aim a write, have it land, and must settle in the end.

  `taken = buffered + in flight + settled`

holds of tickets after every step, and an errand knows whether a write of its batch has landed.
Hence a verdict never contradicts the store: results are those of the one write that landed, and an
error is given only where none did.
-/

namespace LeaseQueue.Engine

/-- A write of a batch: what it stores, and what its mutations come to. -/
structure Write where
  batch : List Pending
  document : Document
  results : List MutationResult

namespace Write

/-- The submission with this ticket is in the batch. -/
def folds (w : Write) (ticket : Ticket) : Bool := w.batch.any (·.ticket == ticket)

/-- Document and results come from one pass. -/
def IsFold (timeout : Millis) (w : Write) : Prop :=
  ∃ d now ids,
    w.document = (Document.pass d (w.batch.map (·.mutation)) now timeout ids).document ∧
    w.results = (Document.pass d (w.batch.map (·.mutation)) now timeout ids).result

theorem folds_iff {w : Write} {ticket : Ticket} :
    w.folds ticket ↔ ∃ p ∈ w.batch, p.ticket = ticket := by
  simp [folds]

theorem IsFold.length {timeout : Millis} {w : Write} (h : w.IsFold timeout) :
    w.results.length = w.batch.length := by
  obtain ⟨d, now, ids, _, hresults⟩ := h
  rw [hresults, Document.pass_result_length, List.length_map]

end Write

/-- A batch on its way, with the write it aims or has landed. -/
structure Errand where
  batch : List Pending
  aim : Option Write
  landed : Bool

structure Ledger where
  tickets : Nat
  taken : List Pending
  buffer : List Pending
  drained : List (List Pending)
  errands : List Errand
  written : List Write
  settled : List Settlement

namespace Ledger

def empty : Ledger := ⟨0, [], [], [], [], [], []⟩

/-- Settlements that give everyone in a batch a verdict are of the submissions in the batch. -/
theorem tickets_settleAll (verdict : Verdict) (batch : List Pending) :
    (settleAll verdict batch).map (·.ticket) = batch.map (·.ticket) := by
  simp [settleAll, Function.comp_def]

theorem mem_settleAll {verdict : Verdict} {batch : List Pending} {s : Settlement} :
    s ∈ settleAll verdict batch ↔ ∃ p ∈ batch, ⟨p.ticket, verdict⟩ = s := by
  simp [settleAll]

theorem mem_settleResults {batch : List Pending} {results : List MutationResult}
    {s : Settlement} :
    s ∈ settleResults batch results ↔
      ∃ p r, (p, r) ∈ batch.zip results ∧ ⟨p.ticket, .ok r⟩ = s := by
  simp [settleResults, ← List.map_uncurry_zip_eq_zipWith]

theorem tickets_settleResults {batch : List Pending} {results : List MutationResult}
    (h : results.length = batch.length) :
    (settleResults batch results).map (·.ticket) = batch.map (·.ticket) := by
  induction batch generalizing results with
  | nil => rfl
  | cons p batch ih =>
    cases results with
    | nil => cases h
    | cons r results => exact congrArg (p.ticket :: ·) (ih (Nat.succ.inj h))

/-- A step of the ledger.  Errands have no order. -/
inductive Step (timeout : Millis) : Ledger → Ledger → Prop
  /-- Somebody else submits. -/
  | pass (l : Ledger) : Step timeout l { l with tickets := l.tickets + 1 }
  | take (l : Ledger) (m : Mutation) :
    Step timeout l { l with
      tickets := l.tickets + 1
      taken := ⟨l.tickets, m⟩ :: l.taken
      buffer := l.buffer ++ [⟨l.tickets, m⟩] }
  | reject (l : Ledger) :
    Step timeout l { l with
      buffer := []
      settled := (settleAll (.error .stopped) l.buffer).reverse ++ l.settled }
  | drain (l : Ledger) (errands : List Errand) (some : l.buffer ≠ [])
    (after : errands.Perm (⟨l.buffer, none, false⟩ :: l.errands)) :
    Step timeout l { l with buffer := [], drained := l.buffer :: l.drained, errands }
  | aim (l : Ledger) (errands rest : List Errand) (f : Errand) (write : Option Write)
    (before : l.errands.Perm (f :: rest)) (not : f.landed = false)
    (fold : ∀ w, write = some w → w.batch = f.batch ∧ w.IsFold timeout)
    (after : errands.Perm (⟨f.batch, write, false⟩ :: rest)) :
    Step timeout l { l with errands }
  | land (l : Ledger) (errands rest : List Errand) (batch : List Pending) (w : Write)
    (before : l.errands.Perm (⟨batch, some w, false⟩ :: rest))
    (after : errands.Perm (⟨batch, some w, true⟩ :: rest)) :
    Step timeout l { l with errands, written := w :: l.written }
  | finish (l : Ledger) (errands : List Errand) (batch : List Pending) (w : Write)
    (before : l.errands.Perm (⟨batch, some w, true⟩ :: errands)) :
    Step timeout l { l with
      errands, settled := (settleResults w.batch w.results).reverse ++ l.settled }
  | fail (l : Ledger) (errands : List Errand) (f : Errand) (cause : Error)
    (before : l.errands.Perm (f :: errands)) (not : f.landed = false) :
    Step timeout l { l with
      errands, settled := (settleAll (.error cause) f.batch).reverse ++ l.settled }

/-- What an errand says of its batch is so, given the batches and writes so far. -/
structure Faithful (timeout : Millis) (batches : List (List Pending)) (writes : List Write)
    (f : Errand) : Prop where
  drained : f.batch ∈ batches
  aimed : ∀ w, f.aim = some w → w.batch = f.batch ∧ w.IsFold timeout
  landed : f.landed = true → ∃ w ∈ writes, f.aim = some w
  notLanded : f.landed = false → ∀ w ∈ writes, w.batch ≠ f.batch

structure Sound (timeout : Millis) (l : Ledger) : Prop where
  fresh : ∀ p ∈ l.taken, p.ticket < l.tickets
  once : (l.taken.map (·.ticket)).Nodup
  places : (l.buffer.map (·.ticket) ++ (l.errands.flatMap (·.batch)).map (·.ticket) ++
    l.settled.map (·.ticket)).Perm (l.taken.map (·.ticket))
  buffered : ∀ p ∈ l.buffer, p ∈ l.taken
  batches : ∀ batch ∈ l.drained, batch ≠ [] ∧ ∀ p ∈ batch, p ∈ l.taken
  apart : (l.drained.flatten.map (·.ticket) ++ l.buffer.map (·.ticket)).Nodup
  faithful : ∀ f ∈ l.errands, Faithful timeout l.drained l.written f
  written : ∀ w ∈ l.written, w.batch ∈ l.drained ∧ w.IsFold timeout
  writtenOnce : (l.written.map (·.batch)).Nodup
  ok : ∀ s ∈ l.settled, ∀ r, s.verdict = .ok r →
    ∃ w ∈ l.written, ∃ m, (⟨s.ticket, m⟩, r) ∈ w.batch.zip w.results
  error : ∀ s ∈ l.settled, ∀ cause, s.verdict = .error cause → ∀ w ∈ l.written, ¬ w.folds s.ticket

variable {timeout : Millis} {l l' : Ledger}

theorem sound_empty : Sound timeout empty := by
  constructor <;> simp [empty]

/-- Batches that share a submission are the same. -/
theorem Sound.eq_of_shared (h : Sound timeout l) {b b' : List Pending} (hb : b ∈ l.drained)
    (hb' : b' ∈ l.drained) {p p' : Pending} (hp : p ∈ b) (hp' : p' ∈ b')
    (ht : p.ticket = p'.ticket) : b = b' := by
  have hnodup := (List.nodup_append.1 h.apart).1
  rw [List.map_flatten, List.nodup_flatten, List.pairwise_map] at hnodup
  have : Std.Symm fun b b' : List Pending =>
      (b.map (·.ticket)).Disjoint (b'.map (·.ticket)) := ⟨fun _ _ h _ hb hb' => h hb' hb⟩
  by_contra hne
  have hdisjoint := hnodup.2.forall hb hb' hne
  exact hdisjoint (List.mem_map_of_mem hp) (ht ▸ List.mem_map_of_mem hp')

/-- An errand among the others: its tickets are nowhere else. -/
theorem Sound.placed (h : Sound timeout l) {f : Errand} {rest : List Errand}
    (before : l.errands.Perm (f :: rest)) :
    (l.buffer.map (·.ticket) ++ (f.batch.map (·.ticket) ++
      (rest.flatMap (·.batch)).map (·.ticket)) ++ l.settled.map (·.ticket)).Nodup := by
  have herrands := (before.flatMap_right (·.batch)).map (·.ticket)
  rw [List.flatMap_cons, List.map_append] at herrands
  have hplaces := ((herrands.append_left _).append_right _).symm.trans h.places
  exact hplaces.nodup_iff.2 h.once

theorem Sound.ne_of_other (h : Sound timeout l) {f g : Errand} {rest : List Errand}
    (before : l.errands.Perm (f :: rest)) (hg : g ∈ rest) : f.batch ≠ g.batch := by
  intro heq
  have hf := (h.faithful f (before.mem_iff.2 List.mem_cons_self)).drained
  obtain ⟨p, batch, hbatch⟩ := List.exists_cons_of_ne_nil (h.batches _ hf).1
  have hp : p ∈ f.batch := hbatch ▸ List.mem_cons_self
  have hnodup := (List.nodup_append.1 (List.nodup_append.1 (h.placed before)).1).2.1
  exact (List.nodup_append.1 hnodup).2.2 _ (List.mem_map_of_mem hp) _
    (List.mem_map_of_mem (List.mem_flatMap.2 ⟨g, hg, heq ▸ hp⟩)) rfl

theorem Sound.not_settled (h : Sound timeout l) {f : Errand} {rest : List Errand}
    (before : l.errands.Perm (f :: rest)) {p : Pending} (hp : p ∈ f.batch) {s : Settlement}
    (hs : s ∈ l.settled) : p.ticket ≠ s.ticket := by
  have hnodup := (List.nodup_append.1 (h.placed before)).2.2
  exact hnodup _ (List.mem_append_right _ (List.mem_append_left _ (List.mem_map_of_mem hp))) _
    (List.mem_map_of_mem hs)

/-- No write that landed has a submission of a batch whose own write has not. -/
theorem Sound.not_folded (h : Sound timeout l) {f : Errand} (hf : f ∈ l.errands)
    (hnot : f.landed = false) {p : Pending} (hp : p ∈ f.batch) {w : Write} (hw : w ∈ l.written) :
    ¬ w.folds p.ticket := by
  intro hfolds
  obtain ⟨q, hq, hticket⟩ := Write.folds_iff.1 hfolds
  have hdrained := (h.written w hw).1
  exact (h.faithful f hf).notLanded hnot w hw
    (h.eq_of_shared hdrained (h.faithful f hf).drained hq hp hticket)

/-! ## Every step keeps the ledger sound -/

theorem Sound.pass (h : Sound timeout l) : Sound timeout { l with tickets := l.tickets + 1 } :=
  { h with fresh := fun p hp => Nat.lt_succ_of_lt (h.fresh p hp) }

theorem Sound.take (h : Sound timeout l) (m : Mutation) :
    Sound timeout { l with
      tickets := l.tickets + 1
      taken := ⟨l.tickets, m⟩ :: l.taken
      buffer := l.buffer ++ [⟨l.tickets, m⟩] } := by
  have hnew : ∀ p ∈ l.taken, p.ticket ≠ l.tickets := fun p hp => Nat.ne_of_lt (h.fresh p hp)
  have hmem : ∀ {p : Pending}, p ∈ l.taken → p ∈ (⟨l.tickets, m⟩ : Pending) :: l.taken :=
    List.mem_cons_of_mem _
  refine { h with
    fresh := ?_
    once := ?_
    places := ?_
    buffered := ?_
    batches := fun b hb => ⟨(h.batches b hb).1, fun p hp => hmem ((h.batches b hb).2 p hp)⟩
    apart := ?_ }
  · intro p hp
    rcases List.mem_cons.1 hp with rfl | hp
    · exact Nat.lt_succ_self _
    · exact Nat.lt_succ_of_lt (h.fresh p hp)
  · refine List.nodup_cons.2 ⟨?_, h.once⟩
    intro hin
    obtain ⟨p, hp, heq⟩ := List.mem_map.1 hin
    exact hnew p hp heq
  · have hplaces := h.places.cons l.tickets
    rw [List.append_assoc] at hplaces
    simpa [List.append_assoc] using List.perm_middle.trans hplaces
  · intro p hp
    rcases List.mem_append.1 hp with hp | hp
    · exact hmem (h.buffered p hp)
    · exact List.mem_singleton.1 hp ▸ List.mem_cons_self
  · rw [List.map_append, ← List.append_assoc]
    refine List.nodup_append.2 ⟨h.apart, List.nodup_singleton _, ?_⟩
    rintro t ht t' ht' rfl
    rw [List.map_singleton, List.mem_singleton] at ht'
    rcases List.mem_append.1 ht with ht | ht
    · obtain ⟨p, hp, rfl⟩ := List.mem_map.1 ht
      obtain ⟨b, hb, hpb⟩ := List.mem_flatten.1 hp
      exact hnew p ((h.batches b hb).2 p hpb) ht'
    · obtain ⟨p, hp, rfl⟩ := List.mem_map.1 ht
      exact hnew p (h.buffered p hp) ht'

/-- Settled with an error, outside of every write. -/
theorem Sound.error_settleAll (h : Sound timeout l) (cause : Error) {batch : List Pending}
    (hout : ∀ p ∈ batch, ∀ w ∈ l.written, ¬ w.folds p.ticket) :
    ∀ s ∈ (settleAll (.error cause) batch).reverse ++ l.settled,
      (∀ r, s.verdict = .ok r →
        ∃ w ∈ l.written, ∃ m, (⟨s.ticket, m⟩, r) ∈ w.batch.zip w.results) ∧
      (∀ cause', s.verdict = .error cause' → ∀ w ∈ l.written, ¬ w.folds s.ticket) := by
  intro s hs
  rcases List.mem_append.1 hs with hs | hs
  · obtain ⟨p, hp, rfl⟩ := mem_settleAll.1 (List.mem_reverse.1 hs)
    exact ⟨fun _ hr => (by cases hr), fun _ _ w hw => hout p hp w hw⟩
  · exact ⟨h.ok s hs, h.error s hs⟩

theorem Sound.reject (h : Sound timeout l) :
    Sound timeout { l with
      buffer := []
      settled := (settleAll (.error .stopped) l.buffer).reverse ++ l.settled } := by
  have hout : ∀ p ∈ l.buffer, ∀ w ∈ l.written, ¬ w.folds p.ticket := by
    intro p hp w hw hfolds
    obtain ⟨q, hq, hticket⟩ := Write.folds_iff.1 hfolds
    have hq' : q ∈ l.drained.flatten := List.mem_flatten.2 ⟨_, (h.written w hw).1, hq⟩
    exact (List.nodup_append.1 h.apart).2.2 _ (List.mem_map_of_mem hq') _
      (List.mem_map_of_mem hp) hticket
  have hsettled := h.error_settleAll .stopped hout
  refine { h with
    places := ?_
    buffered := by simp
    apart := by simpa using (List.nodup_append.1 h.apart).1
    ok := fun s hs => (hsettled s hs).1
    error := fun s hs => (hsettled s hs).2 }
  have hreverse : ((settleAll (.error .stopped) l.buffer).reverse.map (·.ticket)).Perm
      (l.buffer.map (·.ticket)) := by
    rw [← tickets_settleAll (.error .stopped) l.buffer, List.map_reverse]
    exact List.reverse_perm _
  have hmove := (hreverse.append_right (l.settled.map (·.ticket))).append_left
    ((l.errands.flatMap (·.batch)).map (·.ticket))
  have hplaces := (List.perm_append_comm.append_right _).trans h.places
  rw [List.append_assoc] at hplaces
  simpa using hmove.trans hplaces

theorem Sound.drain (h : Sound timeout l) {errands : List Errand} (hsome : l.buffer ≠ [])
    (after : errands.Perm (⟨l.buffer, none, false⟩ :: l.errands)) :
    Sound timeout { l with buffer := [], drained := l.buffer :: l.drained, errands } := by
  have hnew : ∀ w ∈ l.written, w.batch ≠ l.buffer := by
    intro w hw heq
    obtain ⟨p, rest, hbuffer⟩ := List.exists_cons_of_ne_nil hsome
    have hp : p ∈ l.buffer := hbuffer ▸ List.mem_cons_self
    have hp' : p ∈ l.drained.flatten :=
      List.mem_flatten.2 ⟨_, (h.written w hw).1, heq ▸ hp⟩
    exact (List.nodup_append.1 h.apart).2.2 _ (List.mem_map_of_mem hp') _
      (List.mem_map_of_mem hp) rfl
  refine { h with
    places := ?_
    buffered := by simp
    batches := List.forall_mem_cons.2 ⟨⟨hsome, h.buffered⟩, h.batches⟩
    apart := ?_
    faithful := ?_
    written := fun w hw => ⟨List.mem_cons_of_mem _ (h.written w hw).1, (h.written w hw).2⟩ }
  · have herrands := (after.flatMap_right (·.batch)).map (·.ticket)
    rw [List.flatMap_cons, List.map_append] at herrands
    exact (herrands.append_right _).trans h.places
  · rw [List.flatten_cons, List.map_append, List.map_nil, List.append_nil]
    exact (List.perm_append_comm.nodup_iff).1 h.apart
  · intro f hf
    rcases List.mem_cons.1 (after.mem_iff.1 hf) with rfl | hf
    · exact ⟨List.mem_cons_self, by simp, by simp, fun _ => hnew⟩
    · exact { h.faithful f hf with drained := List.mem_cons_of_mem _ (h.faithful f hf).drained }

/-- An errand in another's place, with the same batch. -/
theorem Sound.places_of_same (h : Sound timeout l) {f g : Errand} {errands rest : List Errand}
    (before : l.errands.Perm (f :: rest)) (after : errands.Perm (g :: rest))
    (hbatch : g.batch = f.batch) :
    (l.buffer.map (·.ticket) ++ (errands.flatMap (·.batch)).map (·.ticket) ++
      l.settled.map (·.ticket)).Perm (l.taken.map (·.ticket)) := by
  have hbefore := before.flatMap_right (·.batch)
  have hafter := after.flatMap_right (·.batch)
  rw [List.flatMap_cons] at hbefore hafter
  rw [hbatch] at hafter
  have herrands := (hafter.trans hbefore.symm).map (·.ticket)
  exact ((herrands.append_left _).append_right _).trans h.places

theorem Sound.aim (h : Sound timeout l) {errands rest : List Errand} {f : Errand}
    {write : Option Write} (before : l.errands.Perm (f :: rest)) (hnot : f.landed = false)
    (fold : ∀ w, write = some w → w.batch = f.batch ∧ w.IsFold timeout)
    (after : errands.Perm (⟨f.batch, write, false⟩ :: rest)) :
    Sound timeout { l with errands } := by
  refine { h with places := h.places_of_same before after rfl, faithful := ?_ }
  intro g hg
  rcases List.mem_cons.1 (after.mem_iff.1 hg) with rfl | hg
  · have hf := h.faithful f (before.mem_iff.2 List.mem_cons_self)
    exact ⟨hf.drained, fold, by simp, fun _ => hf.notLanded hnot⟩
  · exact h.faithful g (before.mem_iff.2 (List.mem_cons_of_mem _ hg))

theorem Sound.land (h : Sound timeout l) {errands rest : List Errand} {batch : List Pending}
    {w : Write} (before : l.errands.Perm (⟨batch, some w, false⟩ :: rest))
    (after : errands.Perm (⟨batch, some w, true⟩ :: rest)) :
    Sound timeout { l with errands, written := w :: l.written } := by
  have hin := before.mem_iff.2 List.mem_cons_self
  have hf := h.faithful _ hin
  obtain ⟨hbatch, hfold⟩ := hf.aimed w rfl
  refine { h with
    places := h.places_of_same before after rfl
    faithful := ?_
    written := List.forall_mem_cons.2 ⟨⟨hbatch ▸ hf.drained, hfold⟩, h.written⟩
    writtenOnce := ?_
    ok := ?_
    error := ?_ }
  · intro g hg
    rcases List.mem_cons.1 (after.mem_iff.1 hg) with rfl | hg
    · exact ⟨hf.drained, hf.aimed, fun _ => ⟨w, List.mem_cons_self, rfl⟩, by simp⟩
    · have hg' := h.faithful g (before.mem_iff.2 (List.mem_cons_of_mem _ hg))
      refine { hg' with landed := ?_, notLanded := ?_ }
      · intro hlanded
        obtain ⟨w', hw', haim⟩ := hg'.landed hlanded
        exact ⟨w', List.mem_cons_of_mem _ hw', haim⟩
      · intro hnot
        refine List.forall_mem_cons.2 ⟨?_, hg'.notLanded hnot⟩
        rw [hbatch]
        exact h.ne_of_other before hg
  · refine List.nodup_cons.2 ⟨?_, h.writtenOnce⟩
    intro hmem
    obtain ⟨w', hw', heq⟩ := List.mem_map.1 hmem
    exact hf.notLanded rfl w' hw' (heq.trans hbatch)
  · intro s hs r hr
    obtain ⟨w', hw', hresult⟩ := h.ok s hs r hr
    exact ⟨w', List.mem_cons_of_mem _ hw', hresult⟩
  · intro s hs cause hcause
    refine List.forall_mem_cons.2 ⟨?_, h.error s hs cause hcause⟩
    intro hfolds
    obtain ⟨p, hp, hticket⟩ := Write.folds_iff.1 hfolds
    exact h.not_settled before (hbatch ▸ hp) hs hticket

/-- The batch of an errand that is over is settled. -/
theorem Sound.places_of_settled (h : Sound timeout l) {f : Errand} {errands : List Errand}
    {settled : List Settlement} (before : l.errands.Perm (f :: errands))
    (hsettled : settled.map (·.ticket) = f.batch.map (·.ticket)) :
    (l.buffer.map (·.ticket) ++ (errands.flatMap (·.batch)).map (·.ticket) ++
      (settled.reverse ++ l.settled).map (·.ticket)).Perm (l.taken.map (·.ticket)) := by
  have herrands := (before.flatMap_right (·.batch)).map (·.ticket)
  rw [List.flatMap_cons, List.map_append, ← hsettled] at herrands
  have hreverse : (settled.reverse.map (·.ticket)).Perm (settled.map (·.ticket)) :=
    (List.reverse_perm settled).map _
  have hswap := (List.perm_append_comm.trans (hreverse.append_right _)).trans herrands.symm
  have hplaces := ((hswap.append_left (l.buffer.map (·.ticket))).append_right
    (l.settled.map (·.ticket))).trans h.places
  simpa only [List.append_assoc, List.map_append] using hplaces

theorem Sound.fail (h : Sound timeout l) {errands : List Errand} {f : Errand} (cause : Error)
    (before : l.errands.Perm (f :: errands)) (hnot : f.landed = false) :
    Sound timeout { l with
      errands, settled := (settleAll (.error cause) f.batch).reverse ++ l.settled } := by
  have hin := before.mem_iff.2 List.mem_cons_self
  have hsettled := h.error_settleAll cause fun p hp w hw => h.not_folded hin hnot hp hw
  exact { h with
    places := h.places_of_settled before (tickets_settleAll _ _)
    faithful := fun g hg => h.faithful g (before.mem_iff.2 (List.mem_cons_of_mem _ hg))
    ok := fun s hs => (hsettled s hs).1
    error := fun s hs => (hsettled s hs).2 }

theorem Sound.finish (h : Sound timeout l) {errands : List Errand} {batch : List Pending}
    {w : Write} (before : l.errands.Perm (⟨batch, some w, true⟩ :: errands)) :
    Sound timeout { l with
      errands, settled := (settleResults w.batch w.results).reverse ++ l.settled } := by
  have hf := h.faithful _ (before.mem_iff.2 List.mem_cons_self)
  obtain ⟨hbatch, hfold⟩ := hf.aimed w rfl
  obtain ⟨w', hw, hsame⟩ := hf.landed rfl
  cases hsame
  refine { h with
    places := ?_
    faithful := fun g hg => h.faithful g (before.mem_iff.2 (List.mem_cons_of_mem _ hg))
    ok := ?_
    error := ?_ }
  · refine h.places_of_settled before ?_
    rw [tickets_settleResults hfold.length, hbatch]
  · intro s hs r hr
    rcases List.mem_append.1 hs with hs | hs
    · obtain ⟨p, r', hp, rfl⟩ := mem_settleResults.1 (List.mem_reverse.1 hs)
      cases hr
      exact ⟨w, hw, p.mutation, hp⟩
    · exact h.ok s hs r hr
  · intro s hs cause hcause
    rcases List.mem_append.1 hs with hs | hs
    · obtain ⟨p, r, _, rfl⟩ := mem_settleResults.1 (List.mem_reverse.1 hs)
      cases hcause
    · exact h.error s hs cause hcause

theorem Sound.step (h : Sound timeout l) (hstep : Step timeout l l') : Sound timeout l' := by
  cases hstep with
  | pass => exact h.pass
  | take m => exact h.take m
  | reject => exact h.reject
  | drain errands hsome after => exact h.drain hsome after
  | aim errands rest f write before hnot fold after => exact h.aim before hnot fold after
  | land errands rest batch w before after => exact h.land before after
  | finish errands batch w before => exact h.finish before
  | fail errands f cause before hnot => exact h.fail cause before hnot

/-! ## What a sound ledger says of writes -/

theorem eq_singleton_of_nodup {α : Type} {as : List α} {a : α} (hnodup : as.Nodup) (ha : a ∈ as)
    (hall : ∀ x ∈ as, x = a) : as = [a] := by
  obtain ⟨s, t, rfl⟩ := List.append_of_mem ha
  rw [List.nodup_middle, List.nodup_cons] at hnodup
  have hnil : s ++ t = [] := by
    refine List.eq_nil_iff_forall_not_mem.2 fun x hx => hnodup.1 ?_
    have hmem : x ∈ s ++ a :: t := by
      rcases List.mem_append.1 hx with hs | ht
      · exact List.mem_append_left _ hs
      · exact List.mem_append_right _ (List.mem_cons_of_mem _ ht)
    exact hall x hmem ▸ hx
  obtain ⟨rfl, rfl⟩ := List.append_eq_nil_iff.1 hnil
  rfl

/-- Only one write has a submission. -/
theorem Sound.filter_folds (h : Sound timeout l) {w : Write} (hw : w ∈ l.written) {p : Pending}
    (hp : p ∈ w.batch) : l.written.filter (·.folds p.ticket) = [w] := by
  refine eq_singleton_of_nodup (h.writtenOnce.of_map.filter _) ?_ ?_
  · exact List.mem_filter.2 ⟨hw, Write.folds_iff.2 ⟨p, hp, rfl⟩⟩
  · intro w' hw'
    obtain ⟨hin, hfolds⟩ := List.mem_filter.1 hw'
    obtain ⟨q, hq, hticket⟩ := Write.folds_iff.1 hfolds
    have hbatch := h.eq_of_shared (h.written w' hin).1 (h.written w hw).1 hq hp hticket
    exact List.inj_on_of_nodup_map h.writtenOnce hin hw hbatch

/-- A batch is written as a whole, or not at all. -/
theorem Sound.whole (h : Sound timeout l) {batch : List Pending} (hbatch : batch ∈ l.drained) :
    (∃ w, ∀ p ∈ batch, l.written.filter (·.folds p.ticket) = [w]) ∨
    ∀ p ∈ batch, l.written.filter (·.folds p.ticket) = [] := by
  by_cases hsome : ∃ w ∈ l.written, w.batch = batch
  · obtain ⟨w, hw, rfl⟩ := hsome
    exact .inl ⟨w, fun p hp => h.filter_folds hw hp⟩
  · refine .inr fun p hp => List.filter_eq_nil_iff.2 fun w hw hfolds => hsome ?_
    obtain ⟨q, hq, hticket⟩ := Write.folds_iff.1 hfolds
    exact ⟨w, hw, h.eq_of_shared (h.written w hw).1 hbatch hq hp hticket⟩

/-- The result that a submission was given is that of the only write that has it. -/
theorem Sound.result (h : Sound timeout l) {s : Settlement} (hs : s ∈ l.settled)
    {r : MutationResult} (hr : s.verdict = .ok r) :
    ∃ w m, l.written.filter (·.folds s.ticket) = [w] ∧
      (⟨s.ticket, m⟩, r) ∈ w.batch.zip w.results ∧ ⟨s.ticket, m⟩ ∈ l.taken := by
  obtain ⟨w, hw, m, hzip⟩ := h.ok s hs r hr
  have hp : ⟨s.ticket, m⟩ ∈ w.batch := (List.of_mem_zip hzip).1
  exact ⟨w, m, h.filter_folds hw hp, hzip, (h.batches _ (h.written w hw).1).2 _ hp⟩

theorem Sound.failure (h : Sound timeout l) {s : Settlement} (hs : s ∈ l.settled) {cause : Error}
    (hcause : s.verdict = .error cause) : l.written.filter (·.folds s.ticket) = [] :=
  List.filter_eq_nil_iff.2 (h.error s hs cause hcause)

theorem Sound.same (h : Sound timeout l) :
    ∀ p ∈ l.buffer ++ l.errands.flatMap (·.batch), p ∈ l.taken := by
  intro p hp
  rcases List.mem_append.1 hp with hbuffer | herrand
  · exact h.buffered p hbuffer
  · obtain ⟨f, hf, hpf⟩ := List.mem_flatMap.1 herrand
    exact (h.batches _ (h.faithful f hf).drained).2 p hpf

/-- Nobody is answered twice. -/
theorem Sound.eq_of_settled (h : Sound timeout l) {s s' : Settlement} (hs : s ∈ l.settled)
    (hs' : s' ∈ l.settled) (hticket : s.ticket = s'.ticket) : s = s' := by
  have hnodup := (List.nodup_append.1 (h.places.nodup_iff.2 h.once)).2.1
  exact List.inj_on_of_nodup_map hnodup hs hs' hticket

/-- Any number of steps. -/
abbrev Steps (timeout : Millis) : Ledger → Ledger → Prop := Relation.ReflTransGen (Step timeout)

theorem Sound.steps (h : Sound timeout l) (hsteps : Steps timeout l l') : Sound timeout l' := by
  induction hsteps with
  | refl => exact h
  | tail _ hstep ih => exact ih.step hstep

/-- What was taken stays taken, and no verdict is withdrawn. -/
theorem Steps.subset (hsteps : Steps timeout l l') :
    l.taken ⊆ l'.taken ∧ l.settled ⊆ l'.settled := by
  induction hsteps with
  | refl => exact ⟨List.Subset.refl _, List.Subset.refl _⟩
  | tail _ hstep ih =>
    cases hstep with
    | take m => exact ⟨List.subset_cons_of_subset _ ih.1, ih.2⟩
    | reject | finish | fail => exact ⟨ih.1, List.subset_append_of_subset_right _ ih.2⟩
    | pass | drain | aim | land => exact ih

/-- Submissions are taken in the order of their tickets; the latest stands first. -/
theorem Sound.taken_ordered (h : Sound timeout l)
    (hordered : l.taken.Pairwise fun later earlier => earlier.ticket < later.ticket)
    (hsteps : Steps timeout l l') :
    l'.taken.Pairwise fun later earlier => earlier.ticket < later.ticket := by
  induction hsteps with
  | refl => exact hordered
  | tail hsteps hstep ih =>
    cases hstep with
    | take m => exact List.pairwise_cons.2 ⟨(h.steps hsteps).fresh, ih⟩
    | pass | reject | drain | aim | land | finish | fail => exact ih

/-- Nothing is forgotten, and what is taken anew has a ticket that was not used before. -/
structure Grows (l l' : Ledger) : Prop where
  tickets : l.tickets ≤ l'.tickets
  taken : ∀ p ∈ l'.taken, p ∈ l.taken ∨ l.tickets ≤ p.ticket
  written : l.written ⊆ l'.written

theorem Grows.refl (l : Ledger) : Grows l l := ⟨Nat.le_refl _, fun _ => .inl, fun _ => id⟩

theorem Grows.trans {l'' : Ledger} (h : Grows l l') (h' : Grows l' l'') : Grows l l'' where
  tickets := Nat.le_trans h.tickets h'.tickets
  taken p hp := by
    rcases h'.taken p hp with hold | hnew
    · exact h.taken p hold
    · exact .inr (Nat.le_trans h.tickets hnew)
  written := List.Subset.trans h.written h'.written

theorem Grows.of_step (h : Step timeout l l') : Grows l l' := by
  cases h with
  | pass => exact { Grows.refl l with tickets := Nat.le_succ _ }
  | take m =>
    refine ⟨Nat.le_succ _, fun p hp => ?_, fun _ => id⟩
    rcases List.mem_cons.1 hp with rfl | hold
    · exact .inr (Nat.le_refl _)
    · exact .inl hold
  | land => exact { Grows.refl l with written := List.subset_cons_self _ _ }
  | reject | drain | aim | finish | fail => exact ⟨Nat.le_refl _, fun _ => .inl, fun _ => id⟩

theorem Grows.of_steps (h : Steps timeout l l') : Grows l l' := by
  induction h with
  | refl => exact .refl l
  | tail _ hstep ih => exact ih.trans (.of_step hstep)

end Ledger

end LeaseQueue.Engine
