import LeaseQueue.Queue.Document

/-!
# Passes

What every pass has in common, whatever its mutations: there is one result for each of them, and
what one mutation keeps all of them keep.

  `applyAll_induction : (∀ m ∈ ms, m keeps P) → P d → P (d.applyAll ms now ids).document`
-/

namespace LeaseQueue.Document

theorem applyAll_result_length (d : Document) (ms : List Mutation) (now : Millis)
    (ids : IdSupply) : (d.applyAll ms now ids).result.length = ms.length := by
  induction ms generalizing d ids with
  | nil => rfl
  | cons m ms ih => exact congrArg (· + 1) (ih _ _)

theorem pass_result_length (d : Document) (ms : List Mutation) (now timeout : Millis)
    (ids : IdSupply) : (d.pass ms now timeout ids).result.length = ms.length :=
  applyAll_result_length _ _ _ _

theorem applyAll_induction {P : Document → Prop} {ms : List Mutation} {now : Millis}
    (step : ∀ m ∈ ms, ∀ d ids, P d → P (d.apply m now ids).document) (d : Document)
    (ids : IdSupply) (h : P d) : P (d.applyAll ms now ids).document := by
  induction ms generalizing d ids with
  | nil => exact h
  | cons m ms ih =>
    obtain ⟨hm, hms⟩ := List.forall_mem_cons.1 step
    exact ih hms _ _ (hm d ids h)

end LeaseQueue.Document
