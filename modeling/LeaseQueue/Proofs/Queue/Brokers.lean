import LeaseQueue.Proofs.Queue.Passes

/-!
# Who is in charge after a pass

A pass puts a broker in charge only by a registration, and renews a heartbeat only for the broker
that is in charge:

  `(∀ m ∈ ms, m.Spares d.broker) → (d.pass ms now timeout ids).document` has the broker and the
  heartbeat of `d`.
-/

namespace LeaseQueue

namespace Mutation

def IsRegistration : Mutation → Prop
  | .registerBroker _ _ => True
  | _ => False

/-- Speaks of jobs, not of brokers. -/
def IsAboutJobs : Mutation → Prop
  | .enqueue _ | .claim _ _ | .heartbeat _ _ | .complete _ _ => True
  | .registerBroker _ _ | .renewBroker _ _ => False

/-- Speaks of no other broker than the one with this address. -/
def SpeaksOf (address : String) : Mutation → Prop
  | .registerBroker a _ | .renewBroker a _ => a = address
  | _ => True

/-- Has no effect on the broker if it is this one, nor on its heartbeat. -/
def Spares (broker : Option String) : Mutation → Prop
  | .registerBroker _ _ => False
  | .renewBroker a _ => broker ≠ some a
  | _ => True

variable {m : Mutation}

theorem IsAboutJobs.spares (h : m.IsAboutJobs) (broker : Option String) : m.Spares broker := by
  cases m with
  | registerBroker | renewBroker => cases h
  | _ => trivial

theorem IsAboutJobs.not_isRegistration (h : m.IsAboutJobs) : ¬ m.IsRegistration := by
  cases m with
  | registerBroker => cases h
  | _ => exact id

end Mutation

namespace Document

variable {d : Document} {m : Mutation} {ms : List Mutation} (now timeout : Millis)
  (ids : IdSupply)

/-- A renewal sets the heartbeat of the broker that is in charge, and changes nothing else. -/
theorem apply_renewBroker (address : String) (timestamp : Millis) :
    d.apply (.renewBroker address timestamp) now ids = ⟨{ d with
      brokerHeartbeat := if d.broker = some address then timestamp else d.brokerHeartbeat },
      .renewed (d.broker = some address), ids⟩ := by
  simp only [apply, renewBroker]
  split
  next h => simp only [h, decide_true]
  next h => simp only [h, decide_false]

theorem apply_spared (h : m.Spares d.broker) :
    (d.apply m now ids).document.broker = d.broker ∧
      (d.apply m now ids).document.brokerHeartbeat = d.brokerHeartbeat := by
  cases m with
  | enqueue | claim | heartbeat => exact ⟨rfl, rfl⟩
  | complete job worker =>
    simp only [apply, complete]
    split <;> exact ⟨rfl, rfl⟩
  | registerBroker => cases h
  | renewBroker address timestamp =>
    rw [apply, renewBroker, if_neg h]
    exact ⟨rfl, rfl⟩

theorem apply_unregistered (h : ¬ m.IsRegistration) :
    (d.apply m now ids).document.broker = d.broker := by
  cases m with
  | registerBroker => exact absurd trivial h
  | renewBroker address timestamp =>
    simp only [apply, renewBroker]
    split <;> rfl
  | enqueue | claim | heartbeat => rfl
  | complete job worker =>
    have hspares : (Mutation.complete job worker).Spares d.broker := trivial
    exact (apply_spared now ids hspares).1

theorem apply_speaksOf {address : String} (h : m.SpeaksOf address) :
    (d.apply m now ids).document.broker = d.broker ∨
      (d.apply m now ids).document.broker = some address := by
  cases m with
  | registerBroker a timestamp => exact .inr (congrArg some h)
  | _ => exact .inl (apply_unregistered now ids id)

theorem pass_spared (h : ∀ m ∈ ms, m.Spares d.broker) :
    (d.pass ms now timeout ids).document.broker = d.broker ∧
      (d.pass ms now timeout ids).document.brokerHeartbeat = d.brokerHeartbeat := by
  refine applyAll_induction (P := fun d' => d'.broker = d.broker ∧
    d'.brokerHeartbeat = d.brokerHeartbeat) (fun m hm d' ids hd' => ?_) _ ids ⟨rfl, rfl⟩
  have hspared := apply_spared now ids (hd'.1 ▸ h m hm : m.Spares d'.broker)
  exact ⟨hspared.1.trans hd'.1, hspared.2.trans hd'.2⟩

theorem pass_unregistered (h : ∀ m ∈ ms, ¬ m.IsRegistration) :
    (d.pass ms now timeout ids).document.broker = d.broker :=
  applyAll_induction (P := fun d' => d'.broker = d.broker)
    (fun m hm _ ids hd' => (apply_unregistered now ids (h m hm)).trans hd') _ ids rfl

theorem pass_speaksOf {address : String} (h : ∀ m ∈ ms, m.SpeaksOf address) :
    (d.pass ms now timeout ids).document.broker = d.broker ∨
      (d.pass ms now timeout ids).document.broker = some address := by
  refine applyAll_induction (P := fun d' => d'.broker = d.broker ∨ d'.broker = some address)
    (fun m hm d' ids hd' => ?_) _ ids (.inl rfl)
  rcases apply_speaksOf (d := d') now ids (h m hm) with hsame | hown
  · rwa [hsame]
  · exact .inr hown

end Document

end LeaseQueue
