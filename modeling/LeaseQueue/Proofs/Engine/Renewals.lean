import LeaseQueue.Proofs.Engine.Caches
import LeaseQueue.Proofs.Queue.Batches
import LeaseQueue.Proofs.Queue.Brokers

/-!
# Renewals

A heartbeat asks for a renewal only if it has found the broker named.  By the time that a pass comes
to the renewal the document may name another one, and then the renewal changes nothing:

  `w.Renews timeout ticket address reading base found`

What the submitter is told is what the pass has found.
-/

namespace LeaseQueue

namespace Engine

/-- The batch has the renewal under the ticket, and the pass over `base` comes to it when the
document is `found`: it sets the heartbeat if the broker is named there, and nothing else. -/
def Write.Renews (w : Write) (timeout : Millis) (ticket : Ticket) (address : String)
    (reading : Millis) (base found : Document) : Prop :=
  ∃ (earlier later : List Pending) (now : Millis) (ids : IdSupply),
    let before := base.pass (earlier.map (·.mutation)) now timeout ids
    let after : Document := { found with
      brokerHeartbeat := if found.broker = some address then reading else found.brokerHeartbeat }
    w.batch = earlier ++ ⟨ticket, .renewBroker address reading⟩ :: later ∧
    found = before.document ∧
    w.document = (after.applyAll (later.map (·.mutation)) now before.ids).document ∧
    w.results[earlier.length]? = some (.renewed (found.broker = some address))

variable {timeout : Millis} {base : Document} {w : Write}

/-- Each renewal in the batch of a write has its place in the pass. -/
theorem Write.FoldsOver.renews (h : Write.FoldsOver timeout base w) {earlier later : List Pending}
    {ticket : Ticket} {address : String} {reading : Millis}
    (hbatch : w.batch = earlier ++ ⟨ticket, .renewBroker address reading⟩ :: later) :
    ∃ found, w.Renews timeout ticket address reading base found ∧
      w.results[earlier.length]? = some (.renewed (found.broker = some address)) := by
  obtain ⟨now, ids, hdocument, hresults⟩ := h
  let before := base.pass (earlier.map (·.mutation)) now timeout ids
  have hlength : before.result.length = earlier.length :=
    (Document.pass_result_length ..).trans (List.length_map _)
  rw [hbatch, List.map_append, List.map_cons, Document.pass_split] at hdocument hresults
  dsimp only at hdocument hresults
  rw [Document.apply_renewBroker] at hdocument hresults
  have hresult : w.results[earlier.length]? =
      some (.renewed (before.document.broker = some address)) := by
    rw [hresults, ← hlength, List.getElem?_append_right (Nat.le_refl _), Nat.sub_self]
    rfl
  exact ⟨before.document, ⟨earlier, later, now, ids, hbatch, rfl, hdocument, hresult⟩, hresult⟩

theorem Write.FoldsOver.broker_eq (h : Write.FoldsOver timeout base w)
    (hbatch : ∀ p ∈ w.batch, ¬ p.mutation.IsRegistration) : w.document.broker = base.broker := by
  obtain ⟨now, ids, hdocument, -⟩ := h
  rw [hdocument]
  exact Document.pass_unregistered now timeout ids (List.forall_mem_map.2 hbatch)

/-- Where in the lists a pair of entries stands. -/
theorem exists_split_of_mem_zip {α β : Type} {as : List α} {bs : List β} {a : α} {b : β}
    (h : (a, b) ∈ as.zip bs) :
    ∃ earlier later, as = earlier ++ a :: later ∧ bs[earlier.length]? = some b := by
  induction as generalizing bs with
  | nil => cases h
  | cons x as ih =>
    cases bs with
    | nil => cases h
    | cons y bs =>
      rcases List.mem_cons.1 h with heq | hrest
      · cases heq
        exact ⟨[], as, rfl, rfl⟩
      · obtain ⟨earlier, later, rfl, hb⟩ := ih hrest
        exact ⟨x :: earlier, later, rfl, hb⟩

end Engine

namespace Broker

variable {o : Options} {now : Millis} {answer : Store.Answer .read}

theorem leads_of_renew {renewal : Mutation} (h : heartbeat o now answer = .renew renewal) :
    o.election.leads answer = .ok true := by
  revert h
  fun_cases heartbeat o now answer with
  | case1 | case2 => exact nofun
  | case3 hleads => exact fun _ => hleads

theorem leads_of_done {named : Bool} (h : heartbeat o now answer = .done (.ok named)) :
    named = false ∧ o.election.leads answer = .ok false := by
  revert h
  fun_cases heartbeat o now answer with
  | case1 | case3 => exact nofun
  | case2 hleads =>
    intro h
    cases h
    exact ⟨rfl, hleads⟩

theorem heartbeat_of_leads (h : o.election.leads answer = .ok true) :
    heartbeat o now answer = .renew (.renewBroker o.address now) := by
  rw [heartbeat, h]

theorem heartbeat_of_not_leads (h : o.election.leads answer = .ok false) :
    heartbeat o now answer = .done (.ok false) := by
  rw [heartbeat, h]

end Broker

end LeaseQueue
