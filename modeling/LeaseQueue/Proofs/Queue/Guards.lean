import LeaseQueue.Proofs.Queue.Decoding
import LeaseQueue.Proofs.Queue.Reports

/-!
# Who may report on a job

A completion looks for the first job that has the id and is held by the worker; a heartbeat looks
for the first job that has the id, and then asks whether the worker holds it.  As long as ids are
distinct these are the same job, but a document may be read in which they are not.  The holder of a
job that is behind another one with its id can complete it and cannot keep it:

  `d.heartbeat id worker now = if id ∈ a.map (·.id) then d else …`

where `a` are the jobs before the one that a completion removes.  Apart from this whatever is no
completion is no heartbeat either (`Guards`).
-/

namespace LeaseQueue

namespace Document

/-- What a worker's reports on a job come to, by what they find. -/
inductive Guards (d : Document) (id : JobId) (worker : WorkerId) : Prop where
  /-- The worker holds no job with the id. -/
  | unheld (hjobs : ∀ j ∈ d.jobs, j.id = id → ¬ j.isHeldBy worker)
    (hcomplete : d.complete id worker = d) (hheartbeat : ∀ now, d.heartbeat id worker now = d)
  /-- The worker holds a job with the id, and this is the first. -/
  | held {a : List Job} {j : Job} {b : List Job} (hjobs : d.jobs = a ++ j :: b) (hid : j.id = id)
    (hheld : j.isHeldBy worker) (hothers : ∀ k ∈ a, k.id = id → ¬ k.isHeldBy worker)
    (hcomplete : d.complete id worker =
      { d with jobs := a ++ b, completedTotal := d.completedTotal + 1 })
    (hheartbeat : ∀ now, d.heartbeat id worker now =
      if id ∈ a.map (·.id) then d else { d with jobs := a ++ j.heardAt now :: b })
    (hdistinct : d.ids.Nodup → id ∉ a.map (·.id))

variable {d : Document} {id : JobId} {worker : WorkerId} {a b : List Job} {j : Job}

theorem completes_iff {k : Job} :
    (Mutation.complete id worker).completes k ↔ k.id = id ∧ k.isHeldBy worker := by
  rw [Mutation.completes, Bool.and_eq_true, beq_iff_eq]

theorem refreshFirst_append (h : id ∉ a.map (·.id)) (worker : WorkerId) (now : Millis)
    (jobs : List Job) :
    refreshFirst id worker now (a ++ jobs) = a ++ refreshFirst id worker now jobs := by
  induction a with
  | nil => rfl
  | cons k a ih =>
    rw [List.map_cons, List.mem_cons, not_or] at h
    rw [List.cons_append, refreshFirst, if_neg (Ne.symm h.1), ih h.2, List.cons_append]

/-- The lease of a job is renewed by its holder, unless there is another job with the id. -/
theorem heartbeat_of_held (hjobs : d.jobs = a ++ j :: b) (hid : j.id = id)
    (hheld : j.isHeldBy worker) (hfirst : id ∉ a.map (·.id)) (now : Millis) :
    d.heartbeat id worker now = { d with jobs := a ++ j.heardAt now :: b } := by
  rw [heartbeat, hjobs, refreshFirst_append hfirst, refreshFirst, if_pos hid, Job.refreshedBy_eq,
    if_pos hheld]

/-- Whoever does not hold the first job with the id changes nothing by a heartbeat. -/
theorem heartbeat_of_first_unheld (h : ∀ k, d.job? id = some k → ¬ k.isHeldBy worker) (now : Millis) :
    d.heartbeat id worker now = d := by
  have hsame : refreshFirst id worker now d.jobs = d.jobs := by
    rcases refreshFirst_cases id worker now d.jobs with
      ⟨-, hsame⟩ | ⟨a, j, b, hjobs, -, hfind, hrefresh⟩
    · exact hsame
    · rw [hrefresh, Job.refreshedBy_eq, if_neg (h j hfind), hjobs]
  rw [heartbeat, hsame]

/-- If there is a job with the id in front, the first one is there. -/
theorem mem_of_job? {jobs : List Job} {k : Job} (hjobs : d.jobs = a ++ jobs)
    (hbehind : id ∈ a.map (·.id)) (hk : d.job? id = some k) : k ∈ a ∧ k.id = id := by
  rw [job?, hjobs, List.find?_append] at hk
  cases hfound : a.find? (·.id == id) with
  | none => exact absurd hbehind (find?_id_eq_none.1 hfound)
  | some l =>
    obtain rfl : l = k := by simpa [hfound] using hk
    exact ⟨List.mem_of_find?_eq_some hfound, by simpa using List.find?_some hfound⟩

theorem complete_of_unheld (h : ∀ k ∈ d.jobs, k.id = id → ¬ k.isHeldBy worker) :
    d.complete id worker = d := by
  refine if_neg fun hany => ?_
  obtain ⟨k, hk, hdone⟩ := List.any_eq_true.1 hany
  obtain ⟨hid, hheld⟩ := completes_iff.1 hdone
  exact h k hk hid hheld

theorem complete_of_held (hjobs : d.jobs = a ++ j :: b)
    (hdone : (Mutation.complete id worker).completes j)
    (hothers : ∀ k ∈ a, ¬ (Mutation.complete id worker).completes k) :
    d.complete id worker = { d with jobs := a ++ b, completedTotal := d.completedTotal + 1 } := by
  have hany : d.jobs.any (Mutation.complete id worker).completes :=
    List.any_eq_true.2 ⟨j, by simp [hjobs], hdone⟩
  have herase : d.jobs.eraseP (Mutation.complete id worker).completes = a ++ b := by
    rw [hjobs, List.eraseP_append_right _ hothers, List.eraseP_cons_of_pos hdone]
  exact (if_pos hany).trans (by rw [← herase]; rfl)

/-- **The holder of a job can complete it, and can keep it if no other job before has its id**; who
does not hold it can do neither. -/
theorem guards (d : Document) (id : JobId) (worker : WorkerId) : d.Guards id worker := by
  cases hfind : d.jobs.find? (Mutation.complete id worker).completes with
  | none =>
    have hunheld : ∀ j ∈ d.jobs, j.id = id → ¬ j.isHeldBy worker := fun j hj hid hheld =>
      List.find?_eq_none.1 hfind j hj (completes_iff.2 ⟨hid, hheld⟩)
    refine .unheld hunheld (complete_of_unheld hunheld) (heartbeat_of_first_unheld fun k hk => ?_)
    exact hunheld k (List.mem_of_find?_eq_some hk) (by simpa using List.find?_some hk)
  | some j =>
    obtain ⟨hdone, a, b, hjobs, hothers⟩ := List.find?_eq_some_iff_append.1 hfind
    obtain ⟨hid, hheld⟩ := completes_iff.1 hdone
    have hnone : ∀ k ∈ a, ¬ (Mutation.complete id worker).completes k := by simpa using hothers
    have hunheld : ∀ k ∈ a, k.id = id → ¬ k.isHeldBy worker := fun k hk hid hheld =>
      hnone k hk (completes_iff.2 ⟨hid, hheld⟩)
    refine .held hjobs hid hheld hunheld (complete_of_held hjobs hdone hnone) (fun now => ?_) ?_
    · split
      next hbehind =>
        refine heartbeat_of_first_unheld (fun k hk => ?_) now
        obtain ⟨hmem, hkid⟩ := mem_of_job? hjobs hbehind hk
        exact hunheld k hmem hkid
      next hfirst => exact heartbeat_of_held hjobs hid hheld hfirst now
    · intro hnodup hbehind
      rw [ids, hjobs, List.map_append, List.map_cons] at hnodup
      exact List.disjoint_of_nodup_append hnodup hbehind (hid ▸ List.mem_cons_self)

/-- Two jobs under one id, each with a holder of its own. -/
def namesakes : Document :=
  let job (worker : WorkerId) (heartbeat : Millis) : Job :=
    ⟨"job", .inProgress ⟨worker, heartbeat⟩, .null, none, 0, 1, none⟩
  ⟨none, 0, [job "first" 10, job "second" 20], 0⟩

/-- A document may be read in which a worker can complete a job and cannot keep it. -/
theorem heartbeat_of_namesake :
    decode namesakes.encode = .ok namesakes ∧
      namesakes.complete "job" "second" = ⟨none, 0, [namesakes.jobs[0]], 1⟩ ∧
      namesakes.jobs[1].lease? = some ⟨"second", 20⟩ ∧
      ∀ now, namesakes.heartbeat "job" "second" now = namesakes := by
  refine ⟨?_, by decide, rfl, fun now => rfl⟩
  set_option maxRecDepth 4000 in rfl

end Document

end LeaseQueue
