import LeaseQueue.Proofs.Queue.Turns

/-!
# Batches

How many passes a list of mutations is spread over makes no difference, as long as the clock stands
still: the document, the results and the ids that are left are those of a single pass.

  `0 ≤ timeout → d.passes (batch :: batches) now timeout ids =
    d.pass (batch :: batches).flatten now timeout ids`

Every pass but the first has nothing to sweep.  The first sweep leaves no stale lease behind, and
the leases that are given or renewed after it start at this very reading of the clock.
-/

namespace LeaseQueue

namespace Job

variable {j j' : Job} {now timeout : Millis}

theorem isStale_of_isUnclaimed (h : j.isUnclaimed) (now timeout : Millis) :
    j.isStale now timeout = false := by
  rw [isStale, Option.isNone_iff_eq_none.1 h]
  rfl

/-- A lease is not stale at the moment at which its holder is heard of. -/
theorem isStale_of_status {worker : WorkerId} (h : 0 ≤ timeout)
    (hj : j.status = .inProgress ⟨worker, now⟩) : j.isStale now timeout = false := by
  have hzero : (0 : Int) ≤ timeout.toInt := Int64.le_iff_toInt_le.1 h
  simp only [isStale, lease?, hj, Option.any_some]
  rw [← Bool.not_eq_true, Millis.isPast_iff (Millis.isWithin_self now),
    Millis.IsTrulyPast, Int.sub_self]
  exact Int.not_lt.2 hzero

theorem isStale_refreshedBy (h : 0 ≤ timeout) (hj : j.isStale now timeout = false)
    (worker : WorkerId) : (j.refreshedBy worker now).isStale now timeout = false := by
  unfold refreshedBy
  split
  · exact isStale_of_status h rfl
  · exact hj

theorem swept_of_not_isStale (h : j.isStale now timeout = false) :
    j.swept now timeout = some j := by
  rw [swept, h, if_neg Bool.false_ne_true]

theorem isStale_of_swept (h : j.swept now timeout = some j') : j'.isStale now timeout = false := by
  by_cases hstale : j.isStale now timeout
  · rw [swept, if_pos hstale] at h
    split at h
    · cases h
    · cases h
      exact isStale_of_isUnclaimed rfl now timeout
  · rw [Bool.not_eq_true] at hstale
    rw [swept_of_not_isStale hstale] at h
    cases h
    exact hstale

end Job

namespace Document

/-! ## Nothing left to sweep -/

/-- A sweep finds no stale lease. -/
def IsSwept (d : Document) (now timeout : Millis) : Prop :=
  ∀ j ∈ d.jobs, j.isStale now timeout = false

variable {d : Document} {now timeout : Millis}

theorem isSwept_sweep (d : Document) (now timeout : Millis) :
    (d.sweep now timeout).IsSwept now timeout := by
  intro j' hj'
  obtain ⟨j, -, hswept⟩ := List.mem_filterMap.1 hj'
  exact Job.isStale_of_swept hswept

theorem IsSwept.sweep_eq (h : d.IsSwept now timeout) : d.sweep now timeout = d := by
  have hjobs : d.jobs.filterMap (Job.swept now timeout) = d.jobs := by
    rw [List.filterMap_congr fun j hj => Job.swept_of_not_isStale (h j hj), List.filterMap_some]
  rw [Document.sweep, hjobs]

/-- No mutation makes a lease that is stale already. -/
theorem IsSwept.apply (h : d.IsSwept now timeout) (hzero : 0 ≤ timeout) (m : Mutation)
    (ids : IdSupply) : (d.apply m now ids).document.IsSwept now timeout := by
  refine forall_jobs_turn (t := .mutate m now ids)
    (fun _ _ _ _ => Job.isStale_of_isUnclaimed rfl ..) fun j hj j' hmakes => ?_
  cases hmakes with
  | same => exact h j hj
  | claimed => exact Job.isStale_of_status hzero rfl
  | refreshed => exact Job.isStale_refreshedBy hzero (h j hj) _

theorem isSwept_pass (hzero : 0 ≤ timeout) (d : Document) (ms : List Mutation) (ids : IdSupply) :
    (d.pass ms now timeout ids).document.IsSwept now timeout := by
  have hkeeps : ∀ m ∈ ms, ∀ (d : Document) ids, d.IsSwept now timeout →
      (d.apply m now ids).document.IsSwept now timeout :=
    fun m _ _ ids h => h.apply hzero m ids
  exact applyAll_induction hkeeps _ ids (isSwept_sweep d now timeout)

/-! ## One pass or many -/

/-- One pass for each batch, one after another, at the same reading of the clock. -/
def passes (d : Document) (batches : List (List Mutation)) (now timeout : Millis)
    (ids : IdSupply) : Outcome (List MutationResult) :=
  match batches with
  | [] => ⟨d, [], ids⟩
  | batch :: batches =>
    let one := d.pass batch now timeout ids
    let more := passes one.document batches now timeout one.ids
    ⟨more.document, one.result ++ more.result, more.ids⟩

theorem applyAll_append (d : Document) (ms ms' : List Mutation) (now : Millis) (ids : IdSupply) :
    d.applyAll (ms ++ ms') now ids =
      let one := d.applyAll ms now ids
      let more := one.document.applyAll ms' now one.ids
      ⟨more.document, one.result ++ more.result, more.ids⟩ := by
  induction ms generalizing d ids with
  | nil => rfl
  | cons m ms ih =>
    simp only [List.cons_append, applyAll]
    rw [ih]

/-- A pass up to one of its mutations, and from there on. -/
theorem pass_split (d : Document) (earlier : List Mutation) (m : Mutation)
    (later : List Mutation) (now timeout : Millis) (ids : IdSupply) :
    d.pass (earlier ++ m :: later) now timeout ids =
      let before := d.pass earlier now timeout ids
      let one := before.document.apply m now before.ids
      let more := one.document.applyAll later now one.ids
      ⟨more.document, before.result ++ one.result :: more.result, more.ids⟩ := by
  rw [pass, applyAll_append]
  rfl

/-- Where nothing is left to sweep, passes are nothing but their mutations. -/
theorem IsSwept.passes_eq (h : d.IsSwept now timeout) (hzero : 0 ≤ timeout)
    (batches : List (List Mutation)) (ids : IdSupply) :
    d.passes batches now timeout ids = d.applyAll batches.flatten now ids := by
  induction batches generalizing d ids with
  | nil => rfl
  | cons batch batches ih =>
    have hpass : d.pass batch now timeout ids = d.applyAll batch now ids := by
      rw [pass, h.sweep_eq]
    have hswept : (d.pass batch now timeout ids).document.IsSwept now timeout :=
      isSwept_pass hzero d batch ids
    rw [hpass] at hswept
    simp only [passes, List.flatten_cons, applyAll_append, hpass]
    rw [ih hswept]

/-- **Batching is invisible**: passes at one reading of the clock make of a document what a single
pass makes of it, with the same results and the same ids left, however the mutations are cut. -/
theorem passes_eq_pass_flatten (d : Document) (batch : List Mutation)
    (batches : List (List Mutation)) (now timeout : Millis) (ids : IdSupply) (h : 0 ≤ timeout) :
    d.passes (batch :: batches) now timeout ids =
      d.pass (batch :: batches).flatten now timeout ids := by
  have hswept : (d.pass batch now timeout ids).document.IsSwept now timeout :=
    isSwept_pass h d batch ids
  simp only [passes, hswept.passes_eq h]
  rw [pass, pass, List.flatten_cons, applyAll_append]

/-- Two jobs come, one of which is claimed and heard of in batches of their own. -/
def errandsInBatches : List (List Mutation) :=
  [[.enqueue [⟨.null, none, some 1⟩, ⟨.null, none, none⟩]], [],
    [.claim "first" [], .heartbeat "4" "first"], [.enqueue [⟨.null, none, none⟩]]]

theorem passes_errandsInBatches :
    (0 : Millis) ≤ 0 ∧ empty.passes errandsInBatches 10 0 ⟨toString, 4⟩ =
      empty.pass errandsInBatches.flatten 10 0 ⟨toString, 4⟩ :=
  ⟨by decide, passes_eq_pass_flatten empty _ _ 10 0 ⟨toString, 4⟩ (by decide)⟩

/-- A lease that may not last a moment is taken back by the very next pass. -/
example : (empty.passes errandsInBatches 10 (-1) ⟨toString, 4⟩).document ≠
    (empty.pass errandsInBatches.flatten 10 (-1) ⟨toString, 4⟩).document := by decide

end Document

end LeaseQueue
