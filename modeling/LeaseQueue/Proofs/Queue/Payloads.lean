import LeaseQueue.Proofs.Queue.Codec
import LeaseQueue.Proofs.Queue.Turns

/-!
# Payloads stay as they are

Whatever happens to a job, its payload is the one that it came with, so that a property of all
payloads is kept by every pass that brings in none without it.

  `(∀ j ∈ d.jobs, P j.payload) → (∀ m ∈ ms, ∀ spec ∈ m.specs, P spec.payload) →
    ∀ j ∈ (d.pass ms now timeout ids).document.jobs, P j.payload`
-/

namespace LeaseQueue

namespace Document

theorem payload_of_makes {t : Turn} {j j' : Job} (h : Makes t j j') : j'.payload = j.payload := by
  cases h with
  | same | claimed => rfl
  | swept hswept => exact (Job.becomes_swept hswept).payload
  | refreshed => exact (Job.becomes_refreshedBy _ _ _).payload

variable {P : Json → Prop} {d : Document}

theorem forall_payloads_turn (h : ∀ j ∈ d.jobs, P j.payload) {t : Turn}
    (ht : ∀ spec ∈ t.specs, P spec.payload) : ∀ j ∈ (d.turn t).jobs, P j.payload :=
  forall_jobs_turn (fun spec hspec _ _ => ht spec hspec) fun j hj _ hmakes =>
    payload_of_makes hmakes ▸ h j hj

theorem forall_payloads_pass (h : ∀ j ∈ d.jobs, P j.payload) {ms : List Mutation}
    (hms : ∀ m ∈ ms, ∀ spec ∈ m.specs, P spec.payload) (now timeout : Millis) (ids : IdSupply) :
    ∀ j ∈ (d.pass ms now timeout ids).document.jobs, P j.payload := by
  have hsweep := forall_payloads_turn h (t := .sweep now timeout) (List.forall_mem_nil _)
  exact applyAll_induction (P := fun d : Document => ∀ j ∈ d.jobs, P j.payload)
    (fun m hm _ ids h => forall_payloads_turn h (t := .mutate m now ids) (hms m hm)) _ ids hsweep

end Document

/-- The payloads that a mutation brings in. -/
def Mutation.HasPayloads : Mutation → Prop
  | .enqueue specs => ∀ spec ∈ specs, spec.payload.IsPayload
  | .claim _ _ | .heartbeat _ _ | .complete _ _ | .registerBroker _ _ | .renewBroker _ _ => True

theorem Mutation.HasPayloads.specs {m : Mutation} (h : m.HasPayloads) :
    ∀ spec ∈ m.specs, spec.payload.IsPayload := by
  cases m with
  | enqueue specs => exact h
  | claim | heartbeat | complete | registerBroker | renewBroker => exact List.forall_mem_nil _

theorem Document.HasPayloads.pass {d : Document} (h : d.HasPayloads) {ms : List Mutation}
    (hms : ∀ m ∈ ms, m.HasPayloads) (now timeout : Millis) (ids : IdSupply) :
    (d.pass ms now timeout ids).document.HasPayloads :=
  forall_payloads_pass h (fun m hm => (hms m hm).specs) now timeout ids

end LeaseQueue
