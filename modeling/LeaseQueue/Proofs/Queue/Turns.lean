import LeaseQueue.Proofs.Queue.Brokers
import LeaseQueue.Proofs.Queue.Leases
import Mathlib.Data.List.Forall2

/-!
# Turns

A finer run than that of passes: sweeps and mutations in any order, each at a time and with a
timeout of its own.  A turn may enqueue jobs, and it may remove some, which were completed or are
dropped:

  `(d.turn t).ids ++ (d.completed t ++ d.dropped t).map (·.id)` are `d.ids ++ t.created.map (·.id)`

in some order.  Of the jobs that stay, each is what it was, but for its lease and its attempts
(`Job.Becomes`), and they stay in order.
-/

namespace LeaseQueue

/-! ## Runs of turns -/

inductive Turn where
  | sweep (now timeout : Millis)
  | mutate (mutation : Mutation) (now : Millis) (ids : IdSupply)

/-- The specs that a mutation brings in. -/
def Mutation.specs : Mutation → List JobSpec
  | .enqueue specs => specs
  | .claim _ _ | .heartbeat _ _ | .complete _ _ | .registerBroker _ _ | .renewBroker _ _ => []

namespace Turn

def specs : Turn → List JobSpec
  | .sweep _ _ => []
  | .mutate m _ _ => m.specs

/-- The jobs that a turn enqueues. -/
def created : Turn → List Job
  | .mutate (.enqueue specs) now ids =>
    List.zipWith (fun spec id => Job.ofSpec spec id now) specs (ids.take specs.length)
  | _ => []

def IsAboutJobs : Turn → Prop
  | .sweep _ _ => True
  | .mutate m _ _ => m.IsAboutJobs

end Turn

/-- The jobs that a run enqueues, in the order in which they come. -/
def created (ts : List Turn) : List Job := ts.flatMap Turn.created

namespace Document

def turn (d : Document) : Turn → Document
  | .sweep now timeout => d.sweep now timeout
  | .mutate m now ids => (d.apply m now ids).document

def afterTurns (d : Document) (ts : List Turn) : Document := ts.foldl turn d

/-- The jobs that a turn removes because they are done. -/
def completed (d : Document) : Turn → List Job
  | .mutate (.complete job worker) _ _ =>
    (d.jobs.find? fun j => j.id == job && j.isHeldBy worker).toList
  | _ => []

/-- The jobs that a turn gives up: their leases are stale, and their attempts are used up. -/
def dropped (d : Document) : Turn → List Job
  | .sweep now timeout =>
    d.jobs.filter fun j => j.isStale now timeout && decide (j.attemptLimit ≤ j.attempts)
  | .mutate _ _ _ => []

/-- What the turns of a run come to, one after another. -/
def along {α : Type} (f : Document → Turn → List α) (d : Document) : List Turn → List α
  | [] => []
  | t :: ts => f d t ++ (d.turn t).along f ts

/-- What a turn did, noted under its number. -/
def turnDeeds (n : Nat) (d : Document) : Turn → List Entry
  | .sweep now timeout => [⟨n, .sweep now timeout⟩]
  | .mutate m now ids => (d.deed? m now ids).toList.map (Entry.mk n)

/-- What the turns did, the first of them being number `n`. -/
def turnHistory (n : Nat) (d : Document) : List Turn → List Entry
  | [] => []
  | t :: ts => d.turnDeeds n t ++ (d.turn t).turnHistory (n + 1) ts

theorem afterTurns_append (d : Document) (ts us : List Turn) :
    d.afterTurns (ts ++ us) = (d.afterTurns ts).afterTurns us := List.foldl_append

theorem afterTurns_snoc (d : Document) (ts : List Turn) (t : Turn) :
    d.afterTurns (ts ++ [t]) = (d.afterTurns ts).turn t := afterTurns_append d ts [t]

theorem along_snoc {α : Type} (f : Document → Turn → List α) (d : Document) (ts : List Turn)
    (t : Turn) : d.along f (ts ++ [t]) = d.along f ts ++ f (d.afterTurns ts) t := by
  induction ts generalizing d with
  | nil => rw [List.nil_append, along, along, along, List.append_nil, List.nil_append]; rfl
  | cons u us ih => rw [List.cons_append, along, along, ih, List.append_assoc]; rfl

end Document

/-! ## What a job keeps -/

namespace Job

/-- A job later on: the same job, perhaps leased or given back, with no fewer attempts. -/
structure Becomes (j j' : Job) : Prop where
  id : j'.id = j.id
  payload : j'.payload = j.payload
  jobType : j'.jobType = j.jobType
  createdAt : j'.createdAt = j.createdAt
  maxAttempts : j'.maxAttempts = j.maxAttempts
  attempts : j.attempts ≤ j'.attempts

theorem Becomes.refl (j : Job) : j.Becomes j := ⟨rfl, rfl, rfl, rfl, rfl, UInt32.le_refl _⟩

theorem Becomes.trans {j j' j'' : Job} (h : j.Becomes j') (h' : j'.Becomes j'') :
    j.Becomes j'' where
  id := h'.id.trans h.id
  payload := h'.payload.trans h.payload
  jobType := h'.jobType.trans h.jobType
  createdAt := h'.createdAt.trans h.createdAt
  maxAttempts := h'.maxAttempts.trans h.maxAttempts
  attempts := UInt32.le_trans h.attempts h'.attempts

/-- A job that waits has an attempt left, or was never tried. -/
def IsWithinBudget (j : Job) : Prop :=
  j.isUnclaimed → j.attempts = 0 ∨ j.attempts < j.attemptLimit

/-- Its attempts are counted on without overflow. -/
theorem IsWithinBudget.attempts_le {j : Job} (h : j.IsWithinBudget) (hj : j.isUnclaimed) :
    j.attempts ≤ j.attempts + 1 := by
  rcases h hj with h0 | hlt
  · rw [h0]
    decide
  · have hbound := j.attemptLimit.toNat_lt
    rw [UInt32.lt_iff_toNat_lt] at hlt
    rw [UInt32.le_iff_toNat_le, UInt32.toNat_add, UInt32.toNat_one]
    omega

theorem becomes_claimedBy {j : Job} (h : j.IsWithinBudget) (hj : j.isUnclaimed)
    (worker : WorkerId) (now : Millis) : j.Becomes (j.claimedBy worker now) :=
  ⟨rfl, rfl, rfl, rfl, rfl, h.attempts_le hj⟩

theorem becomes_refreshedBy (j : Job) (worker : WorkerId) (now : Millis) :
    j.Becomes (j.refreshedBy worker now) := by
  unfold refreshedBy
  split
  · exact ⟨rfl, rfl, rfl, rfl, rfl, UInt32.le_refl _⟩
  · exact .refl j

theorem becomes_swept {j j' : Job} {now timeout : Millis} (h : j.swept now timeout = some j') :
    j.Becomes j' := by
  unfold swept at h
  split at h
  · split at h
    · cases h
    · cases h
      exact ⟨rfl, rfl, rfl, rfl, rfl, UInt32.le_refl _⟩
  · cases h
    exact .refl j

theorem swept_eq_none_iff {j : Job} {now timeout : Millis} :
    j.swept now timeout = none ↔ j.isStale now timeout ∧ j.attemptLimit ≤ j.attempts := by
  unfold swept
  by_cases hstale : j.isStale now timeout
  · by_cases hspent : j.attemptLimit ≤ j.attempts <;> simp [hstale, hspent]
  · simp [hstale]

theorem isWithinBudget_swept {j j' : Job} {now timeout : Millis} (h : j.IsWithinBudget)
    (hj' : j.swept now timeout = some j') : j'.IsWithinBudget := by
  unfold swept at hj'
  split at hj'
  · split at hj'
    · cases hj'
    next hlimit =>
      cases hj'
      intro _
      exact .inr (UInt32.not_le.1 hlimit)
  · cases hj'
    exact h

theorem isWithinBudget_refreshedBy {j : Job} {worker : WorkerId} {now : Millis}
    (h : j.IsWithinBudget) : (j.refreshedBy worker now).IsWithinBudget := by
  unfold refreshedBy
  split
  · intro hunclaimed
    cases hunclaimed
  · exact h

end Job

/-- These jobs are some of those, later on and in the same order. -/
def StemFrom (later earlier : List Job) : Prop :=
  List.SublistForall₂ (fun j' j => Job.Becomes j j') later earlier

namespace StemFrom

variable {js ks ls : List Job}

theorem refl (js : List Job) : StemFrom js js := by
  induction js with
  | nil => exact .nil
  | cons j js ih => exact .cons (.refl j) ih

theorem trans (h : StemFrom ls ks) (h' : StemFrom ks js) : StemFrom ls js := by
  have : IsTrans Job fun j' j => Job.Becomes j j' := ⟨fun _ _ _ h h' => h'.trans h⟩
  exact List.SublistForall₂.is_trans.trans _ _ _ h h'

theorem of_sublist (h : ks.Sublist js) : StemFrom ks js := by
  induction h with
  | slnil => exact .nil
  | cons j _ ih => exact .cons_right ih
  | cons_cons j _ ih => exact .cons (.refl j) ih

theorem append_right (h : StemFrom ks js) (ls : List Job) : StemFrom (ks ++ ls) (js ++ ls) := by
  induction h with
  | @nil js =>
    rw [List.nil_append]
    exact of_sublist (List.sublist_append_right js ls)
  | cons h _ ih => exact .cons h ih
  | cons_right _ ih => exact .cons_right ih

/-- One job in the place of another. -/
theorem replace {j j' : Job} (h : j.Becomes j') (a b : List Job) :
    StemFrom (a ++ j' :: b) (a ++ j :: b) := by
  induction a with
  | nil => exact .cons h (refl b)
  | cons k a ih => exact .cons (.refl k) ih

theorem ids_sublist (h : StemFrom ks js) : (ks.map (·.id)).Sublist (js.map (·.id)) := by
  induction h with
  | nil => exact List.nil_sublist _
  | cons h _ ih =>
    rw [List.map_cons, List.map_cons, h.id]
    exact ih.cons_cons _
  | cons_right _ ih => exact ih.cons _

theorem of_mem {j' : Job} (h : StemFrom ks js) (hj' : j' ∈ ks) : ∃ j ∈ js, j.Becomes j' := by
  induction h with
  | nil => cases hj'
  | @cons k j ks js h _ ih =>
    rcases List.mem_cons.1 hj' with rfl | hj'
    · exact ⟨j, List.mem_cons_self, h⟩
    · obtain ⟨l, hl, hbecomes⟩ := ih hj'
      exact ⟨l, List.mem_cons_of_mem _ hl, hbecomes⟩
  | cons_right _ ih =>
    obtain ⟨l, hl, hbecomes⟩ := ih hj'
    exact ⟨l, List.mem_cons_of_mem _ hl, hbecomes⟩

end StemFrom

namespace Document

/-- No job that waits has used up its attempts. -/
def IsWithinBudget (d : Document) : Prop := ∀ j ∈ d.jobs, j.IsWithinBudget

variable {d : Document}

theorem stemFrom_sweep (jobs : List Job) (now timeout : Millis) :
    StemFrom (jobs.filterMap (Job.swept now timeout)) jobs := by
  induction jobs with
  | nil => exact .nil
  | cons j jobs ih =>
    rw [List.filterMap_cons]
    cases hswept : j.swept now timeout with
    | none => exact .cons_right ih
    | some j' => exact .cons (Job.becomes_swept hswept) ih

theorem jobs_complete (d : Document) (job : JobId) (worker : WorkerId) :
    (d.complete job worker).jobs = d.jobs.eraseP fun j => j.id == job && j.isHeldBy worker := by
  unfold complete
  dsimp only
  split
  · rfl
  next hany =>
    rw [List.eraseP_of_forall_not]
    intro j hj hdone
    exact hany (List.any_eq_true.2 ⟨j, hj, hdone⟩)

/-- What a turn makes of the jobs. -/
inductive Revises (d : Document) : Turn → List Job → Prop where
  | swept {now timeout} :
    Revises d (.sweep now timeout) (d.jobs.filterMap (Job.swept now timeout))
  | enqueued {specs now ids} : Revises d (.mutate (.enqueue specs) now ids)
      (d.jobs ++ (Turn.mutate (.enqueue specs) now ids).created)
  | claimed {worker types now ids a j b} (hjobs : d.jobs = a ++ j :: b) (hj : j.isUnclaimed) :
    Revises d (.mutate (.claim worker types) now ids) (a ++ j.claimedBy worker now :: b)
  | refreshed {job worker now ids a j b} (hjobs : d.jobs = a ++ j :: b) :
    Revises d (.mutate (.heartbeat job worker) now ids) (a ++ j.refreshedBy worker now :: b)
  | completed {job worker now ids} : Revises d (.mutate (.complete job worker) now ids)
      (d.jobs.eraseP fun j => j.id == job && j.isHeldBy worker)
  | unchanged {t} (hcreated : t.created = []) (hcompleted : d.completed t = [])
    (hdropped : d.dropped t = []) : Revises d t d.jobs

theorem revises_turn (d : Document) (t : Turn) : d.Revises t (d.turn t).jobs := by
  cases t with
  | sweep now timeout => exact .swept
  | mutate m now ids =>
    cases m with
    | enqueue specs => exact .enqueued
    | claim worker types =>
      simp only [turn, apply, claim]
      rcases claimFirst_cases worker now types d.jobs with hnone | ⟨a, j, b, hjobs, hj, hclaim⟩
      · rw [hnone]
        exact .unchanged rfl rfl rfl
      · rw [hclaim]
        exact .claimed hjobs hj
    | heartbeat job worker =>
      simp only [turn, apply, heartbeat]
      rcases refreshFirst_cases job worker now d.jobs with
        ⟨-, hsame⟩ | ⟨a, j, b, hjobs, -, -, hrefresh⟩
      · rw [hsame]
        exact .unchanged rfl rfl rfl
      · rw [hrefresh]
        exact .refreshed hjobs
    | complete job worker =>
      simp only [turn, apply, jobs_complete]
      exact .completed
    | registerBroker address timestamp => exact .unchanged rfl rfl rfl
    | renewBroker address timestamp =>
      simp only [turn, apply, renewBroker]
      split <;> exact .unchanged rfl rfl rfl

/-- The jobs after a turn are those before it and those that it enqueues, or some of them. -/
theorem stemFrom_turn (h : d.IsWithinBudget) (t : Turn) :
    StemFrom (d.turn t).jobs (d.jobs ++ t.created) := by
  have hrevises := d.revises_turn t
  generalize (d.turn t).jobs = jobs at hrevises ⊢
  cases hrevises with
  | @swept now timeout =>
    simp only [Turn.created, List.append_nil]
    exact stemFrom_sweep d.jobs now timeout
  | enqueued => exact .refl _
  | @claimed worker types now ids a j b hjobs hj =>
    have hmem : j ∈ d.jobs := by simp [hjobs]
    simp only [Turn.created, List.append_nil, hjobs]
    exact .replace (Job.becomes_claimedBy (h j hmem) hj worker now) a b
  | @refreshed job worker now ids a j b hjobs =>
    simp only [Turn.created, List.append_nil, hjobs]
    exact .replace (Job.becomes_refreshedBy j worker now) a b
  | completed =>
    simp only [Turn.created, List.append_nil]
    exact .of_sublist List.eraseP_sublist
  | unchanged hcreated =>
    rw [hcreated, List.append_nil]
    exact .refl _

theorem mem_replace {j k l : Job} {a b : List Job} (h : l ∈ a ++ k :: b) :
    l = k ∨ l ∈ a ++ j :: b := by
  rcases List.mem_append.1 h with ha | hkb
  · exact .inr (List.mem_append_left _ ha)
  · rcases List.mem_cons.1 hkb with rfl | hb
    · exact .inl rfl
    · exact .inr (List.mem_append_right _ (List.mem_cons_of_mem _ hb))

/-- What a turn can make of a job that stays. -/
inductive Makes : Turn → Job → Job → Prop where
  | same {t} (j) : Makes t j j
  | swept {now timeout j j'} (h : j.swept now timeout = some j') : Makes (.sweep now timeout) j j'
  | claimed {worker types now ids j} (h : j.isUnclaimed) :
    Makes (.mutate (.claim worker types) now ids) j (j.claimedBy worker now)
  | refreshed {job worker now ids j} :
    Makes (.mutate (.heartbeat job worker) now ids) j (j.refreshedBy worker now)

/-- A job after a turn is new, or the turn made it of one that was there. -/
theorem makes_of_mem_turn {t : Turn} {j' : Job} (h : j' ∈ (d.turn t).jobs) :
    j' ∈ t.created ∨ ∃ j ∈ d.jobs, Makes t j j' := by
  have hrevises := d.revises_turn t
  generalize (d.turn t).jobs = jobs at hrevises h
  cases hrevises with
  | swept =>
    obtain ⟨j, hj, hswept⟩ := List.mem_filterMap.1 h
    exact .inr ⟨j, hj, .swept hswept⟩
  | enqueued =>
    rcases List.mem_append.1 h with hold | hnew
    · exact .inr ⟨j', hold, .same j'⟩
    · exact .inl hnew
  | @claimed worker types now ids a j b hjobs hj =>
    rcases mem_replace (j := j) h with rfl | hold
    · exact .inr ⟨j, by simp [hjobs], .claimed hj⟩
    · exact .inr ⟨j', hjobs ▸ hold, .same j'⟩
  | @refreshed job worker now ids a j b hjobs =>
    rcases mem_replace (j := j) h with rfl | hold
    · exact .inr ⟨j, by simp [hjobs], .refreshed⟩
    · exact .inr ⟨j', hjobs ▸ hold, .same j'⟩
  | completed => exact .inr ⟨j', List.eraseP_subset h, .same j'⟩
  | unchanged => exact .inr ⟨j', h, .same j'⟩

theorem exists_ofSpec_of_mem_created {t : Turn} {j : Job} (h : j ∈ t.created) :
    ∃ spec ∈ t.specs, ∃ id now, j = Job.ofSpec spec id now := by
  cases t with
  | sweep => cases h
  | mutate m now ids =>
    cases m with
    | enqueue specs =>
      rw [Turn.created, ← List.map_uncurry_zip_eq_zipWith] at h
      obtain ⟨⟨spec, id⟩, hzip, rfl⟩ := List.mem_map.1 h
      exact ⟨spec, (List.of_mem_zip hzip).1, id, now, rfl⟩
    | claim | heartbeat | complete | registerBroker | renewBroker => cases h

/-- What new jobs have, and what a turn leaves the jobs that stay, all jobs have after it. -/
theorem forall_jobs_turn {P : Job → Prop} {t : Turn}
    (hnew : ∀ spec ∈ t.specs, ∀ id now, P (.ofSpec spec id now))
    (hmakes : ∀ j ∈ d.jobs, ∀ j', Makes t j j' → P j') : ∀ j' ∈ (d.turn t).jobs, P j' := by
  intro j' hj'
  rcases makes_of_mem_turn hj' with hcreated | ⟨j, hj, h⟩
  · obtain ⟨spec, hspec, id, now, rfl⟩ := exists_ofSpec_of_mem_created hcreated
    exact hnew spec hspec id now
  · exact hmakes j hj j' h

theorem IsWithinBudget.turn (h : d.IsWithinBudget) (t : Turn) : (d.turn t).IsWithinBudget := by
  refine forall_jobs_turn (fun _ _ _ _ _ => .inl rfl) fun j hj j' hmakes => ?_
  cases hmakes with
  | same => exact h j hj
  | swept hswept => exact Job.isWithinBudget_swept (h j hj) hswept
  | claimed => exact fun hunclaimed => nomatch hunclaimed
  | refreshed => exact Job.isWithinBudget_refreshedBy (h j hj)

/-! ## Where every job goes -/

theorem perm_eraseP {p : Job → Bool} (jobs : List Job) :
    (jobs.eraseP p ++ (jobs.find? p).toList).Perm jobs := by
  induction jobs with
  | nil => exact .refl _
  | cons j jobs ih =>
    by_cases hj : p j
    · rw [List.eraseP_cons_of_pos hj, List.find?_cons_of_pos hj]
      exact List.perm_append_comm
    · rw [List.eraseP_cons_of_neg hj, List.find?_cons_of_neg hj]
      exact ih.cons j

theorem ids_sweep_perm (jobs : List Job) (now timeout : Millis) :
    ((jobs.filterMap (Job.swept now timeout)).map (·.id) ++ (jobs.filter fun j =>
      j.isStale now timeout && decide (j.attemptLimit ≤ j.attempts)).map (·.id)).Perm
      (jobs.map (·.id)) := by
  induction jobs with
  | nil => exact .refl _
  | cons j jobs ih =>
    rw [List.filterMap_cons, List.filter_cons]
    cases hswept : j.swept now timeout with
    | none =>
      obtain ⟨hstale, hspent⟩ := Job.swept_eq_none_iff.1 hswept
      rw [if_pos (by simp [hstale, hspent])]
      exact List.perm_middle.trans (ih.cons j.id)
    | some j' =>
      have hkept : ¬ (j.isStale now timeout && decide (j.attemptLimit ≤ j.attempts)) = true := by
        intro h
        rw [Bool.and_eq_true, decide_eq_true_eq, ← Job.swept_eq_none_iff, hswept] at h
        cases h
      rw [if_neg hkept, List.map_cons, List.map_cons, (Job.becomes_swept hswept).id]
      exact ih.cons j.id

/-- The jobs that are there or come stay, are completed or are dropped. -/
theorem ids_turn_perm (d : Document) (t : Turn) :
    ((d.turn t).ids ++ ((d.completed t).map (·.id) ++ (d.dropped t).map (·.id))).Perm
      (d.ids ++ t.created.map (·.id)) := by
  have hrevises := d.revises_turn t
  rw [Document.ids, Document.ids]
  generalize (d.turn t).jobs = jobs at hrevises ⊢
  cases hrevises with
  | @swept now timeout =>
    simp only [completed, dropped, Turn.created, List.map_nil, List.append_nil, List.nil_append]
    exact ids_sweep_perm d.jobs now timeout
  | enqueued =>
    simp only [completed, dropped, List.map_append, List.map_nil, List.append_nil]
    exact .refl _
  | claimed hjobs =>
    simp only [completed, dropped, Turn.created, List.map_nil, List.append_nil, hjobs]
    exact .of_eq (ids_replace rfl)
  | refreshed hjobs =>
    simp only [completed, dropped, Turn.created, List.map_nil, List.append_nil, hjobs]
    exact .of_eq (ids_replace (Job.becomes_refreshedBy _ _ _).id)
  | completed =>
    simp only [completed, dropped, Turn.created, List.map_nil, List.append_nil]
    rw [← List.map_append]
    exact (perm_eraseP d.jobs).map _
  | unchanged hcreated hcompleted hdropped =>
    rw [hcreated, hcompleted, hdropped, List.map_nil, List.append_nil, List.append_nil]

theorem completedTotal_turn (d : Document) (t : Turn) :
    (d.turn t).completedTotal = d.completedTotal + UInt64.ofNat (d.completed t).length := by
  have hnone : d.completedTotal = d.completedTotal + UInt64.ofNat 0 := (UInt64.add_zero _).symm
  cases t with
  | sweep now timeout => exact hnone
  | mutate m now ids =>
    cases m with
    | complete job worker =>
      simp only [turn, apply, complete, completed]
      split
      next hany =>
        obtain ⟨j, hj⟩ := Option.isSome_iff_exists.1 (List.find?_isSome.2 (List.any_eq_true.1 hany))
        rw [hj]
        rfl
      next hany =>
        have hfind : d.jobs.find? (fun j => j.id == job && j.isHeldBy worker) = none := by
          rw [List.find?_eq_none]
          intro j hj hdone
          exact hany (List.any_eq_true.2 ⟨j, hj, hdone⟩)
        rw [hfind]
        exact hnone
    | renewBroker address timestamp =>
      simp only [turn, apply, renewBroker]
      split <;> exact hnone
    | enqueue | claim | heartbeat | registerBroker => exact hnone

/-! ## What jobs and brokers have to do with each other -/

theorem turn_aboutJobs {t : Turn} (h : t.IsAboutJobs) :
    (d.turn t).broker = d.broker ∧ (d.turn t).brokerHeartbeat = d.brokerHeartbeat := by
  cases t with
  | sweep now timeout => exact ⟨rfl, rfl⟩
  | mutate m now ids =>
    have hm : m.IsAboutJobs := h
    exact apply_spared now ids (hm.spares d.broker)

theorem turn_not_aboutJobs {t : Turn} (h : ¬ t.IsAboutJobs) :
    (d.turn t).jobs = d.jobs ∧ (d.turn t).completedTotal = d.completedTotal := by
  cases t with
  | sweep now timeout => exact absurd trivial h
  | mutate m now ids =>
    cases m with
    | enqueue | claim | heartbeat | complete => exact absurd trivial h
    | registerBroker address timestamp => exact ⟨rfl, rfl⟩
    | renewBroker address timestamp =>
      simp only [turn, apply, renewBroker]
      split <;> exact ⟨rfl, rfl⟩

/-! ## Leases along a run of turns -/

theorem enlisted_turnDeeds (n : Nat) (d : Document) (t : Turn) :
    enlisted (d.turnDeeds n t) = t.created.map (·.id) := by
  cases t with
  | sweep now timeout => rfl
  | mutate m now ids =>
    cases m with
    | enqueue specs =>
      have hlength : (ids.take specs.length).length = specs.length := by simp [IdSupply.take]
      rw [Turn.created, ids_ofSpecs now specs _ hlength]
      simp [turnDeeds, deed?, apply, enlisted, Entry.enlisted]
    | claim worker types =>
      cases hclaimed : (d.claim worker now types).2 <;>
        simp [turnDeeds, deed?, apply, hclaimed, enlisted, Entry.enlisted, Turn.created]
    | heartbeat job worker =>
      by_cases hholds : d.holds job worker <;>
        simp [turnDeeds, deed?, hholds, enlisted, Entry.enlisted, Turn.created]
    | complete job worker =>
      by_cases hholds : d.holds job worker <;>
        simp [turnDeeds, deed?, hholds, enlisted, Entry.enlisted, Turn.created]
    | registerBroker | renewBroker => rfl

theorem accounts_turn (n : Nat) {t : Turn} (hd : (d.ids ++ t.created.map (·.id)).Nodup) :
    Accounts d (d.turn t) (d.turnDeeds n t) := by
  cases t with
  | sweep now timeout => exact accounts_sweep hd.of_append_left n now timeout
  | mutate m now ids =>
    rw [← enlisted_turnDeeds n] at hd
    exact accounts_apply n m now ids hd

theorem accounts_turnHistory (n : Nat) (ts : List Turn)
    (hd : (d.ids ++ (created ts).map (·.id)).Nodup) :
    Accounts d (d.afterTurns ts) (d.turnHistory n ts) := by
  induction ts generalizing n d with
  | nil => exact .of_jobs rfl
  | cons t ts ih =>
    rw [created, List.flatMap_cons, List.map_append, ← List.append_assoc] at hd
    have hone := accounts_turn n hd.of_append_left
    have hids := hone.ids
    rw [enlisted_turnDeeds] at hids
    exact hone.append (ih (n + 1) (hd.sublist (hids.append_right _)))

end Document

end LeaseQueue
