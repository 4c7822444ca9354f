import LeaseQueue.Proofs.Queue.Turns

/-!
# Reports

A worker reports that it is at a job, by a heartbeat, or that it is done with it.  What a row of
reports comes to, all at one reading of the clock, can be told from who is among them: a job whose
holder is done with it is gone and counted, and of the others each whose holder was heard of has its
lease renewed.

  `d.ids.Nodup → (d.applyAll ms now ids).document = d.reported ms now`

Nothing in `d.reported ms now` depends on the order of the reports, so they can come in any.
-/

namespace LeaseQueue

namespace Mutation

/-- What a worker says of a job that it has. -/
def isReport : Mutation → Bool
  | .heartbeat _ _ | .complete _ _ => true
  | .enqueue _ | .claim _ _ | .registerBroker _ _ | .renewBroker _ _ => false

/-- The holder of the job is at it. -/
def refreshes (m : Mutation) (j : Job) : Bool :=
  match m with
  | .heartbeat id worker => j.id == id && j.isHeldBy worker
  | _ => false

/-- The holder of the job is done with it. -/
def completes (m : Mutation) (j : Job) : Bool :=
  match m with
  | .complete id worker => j.id == id && j.isHeldBy worker
  | _ => false

end Mutation

namespace Job

/-- The job with its holder heard of at this time. -/
def heardAt (now : Millis) (j : Job) : Job :=
  { j with status :=
      match j.status with
      | .unclaimed => .unclaimed
      | .inProgress lease => .inProgress { lease with heartbeat := now } }

/-- What reports leave of the job. -/
def reported (ms : List Mutation) (now : Millis) (j : Job) : Option Job :=
  if ms.any (·.completes j) then none
  else if ms.any (·.refreshes j) then some (j.heardAt now)
  else some j

end Job

namespace Document

/-- What reports make of a document, all at once. -/
def reported (d : Document) (ms : List Mutation) (now : Millis) : Document :=
  { d with
    jobs := d.jobs.filterMap (Job.reported ms now)
    completedTotal := d.completedTotal +
      UInt64.ofNat (d.jobs.countP fun j => ms.any (·.completes j)) }

/-- What reports come to, in whatever order they are applied. -/
structure Reports (d : Document) (ms : List Mutation) (now : Millis) : Prop where
  document : ∀ ms' : List Mutation, ms'.Perm ms → ∀ ids : IdSupply,
    (d.applyAll ms' now ids).document = d.reported ms now
  /-- As long as the counter can hold it, it grows by the number of jobs that are gone. -/
  counted : d.completedTotal.toNat + d.jobs.countP (fun j => ms.any (·.completes j)) < UInt64.size →
    (d.reported ms now).completedTotal.toNat =
      d.completedTotal.toNat + d.jobs.countP fun j => ms.any (·.completes j)

end Document

/-! ## A job and its reports -/

namespace Job

variable {j : Job} {now : Millis} {ms ms' : List Mutation}

theorem isHeldBy_heardAt (now : Millis) (j : Job) (worker : WorkerId) :
    (j.heardAt now).isHeldBy worker = j.isHeldBy worker := by
  unfold heardAt isHeldBy lease?
  cases j.status <;> rfl

theorem heardAt_heardAt (now : Millis) (j : Job) : (j.heardAt now).heardAt now = j.heardAt now := by
  unfold heardAt
  cases j.status <;> rfl

/-- To be heard of makes no difference to who is the holder. -/
theorem completes_heardAt (m : Mutation) (now : Millis) (j : Job) :
    m.completes (j.heardAt now) = m.completes j := by
  cases m <;> simp only [Mutation.completes, isHeldBy_heardAt]
  rfl

theorem refreshes_heardAt (m : Mutation) (now : Millis) (j : Job) :
    m.refreshes (j.heardAt now) = m.refreshes j := by
  cases m <;> simp only [Mutation.refreshes, isHeldBy_heardAt]
  rfl

theorem refreshedBy_eq (j : Job) (worker : WorkerId) (now : Millis) :
    j.refreshedBy worker now = if j.isHeldBy worker then j.heardAt now else j := by
  unfold refreshedBy
  split
  next h =>
    obtain ⟨since, hstatus⟩ := Document.lease?_eq_some_of_isHeldBy h
    rw [heardAt, hstatus]
  · rfl

/-- It is only asked who is among those who report. -/
theorem reported_perm (h : ms.Perm ms') : reported ms now = reported ms' now := by
  funext j
  simp only [reported, h.any_eq]

/-- A heartbeat that counts comes to the same before the other reports and among them. -/
theorem reported_heartbeat (id : JobId) (worker : WorkerId) (ms : List Mutation) (now : Millis)
    (j : Job) :
    reported ms now (if j.id == id && j.isHeldBy worker then j.heardAt now else j) =
      reported (.heartbeat id worker :: ms) now j := by
  have hcompletes : (Mutation.heartbeat id worker).completes j = false := rfl
  have hrefreshes :
      (Mutation.heartbeat id worker).refreshes j = (j.id == id && j.isHeldBy worker) := rfl
  simp only [reported, List.any_cons, hcompletes, hrefreshes, Bool.false_or]
  cases j.id == id && j.isHeldBy worker with
  | false => rfl
  | true =>
    simp only [if_true, completes_heardAt, refreshes_heardAt, heardAt_heardAt, ite_self,
      Bool.true_or]

/-- And so does a completion. -/
theorem reported_complete (id : JobId) (worker : WorkerId) (ms : List Mutation) (now : Millis)
    (j : Job) :
    (if j.id == id && j.isHeldBy worker then none else reported ms now j) =
      reported (.complete id worker :: ms) now j := by
  have hcompletes :
      (Mutation.complete id worker).completes j = (j.id == id && j.isHeldBy worker) := rfl
  have hrefreshes : (Mutation.complete id worker).refreshes j = false := rfl
  simp only [reported, List.any_cons, hcompletes, hrefreshes, Bool.false_or]
  cases j.id == id && j.isHeldBy worker <;> rfl

end Job

/-! ## One report -/

namespace Document

variable {d : Document} {ms : List Mutation} {m : Mutation} {now : Millis} {j : Job}
  {jobs : List Job}

theorem beq_id_of_notMem (h : j.id ∉ jobs.map (·.id)) : ∀ k ∈ jobs, (k.id == j.id) = false :=
  fun _ hk => beq_false_of_ne fun hsame => h (hsame ▸ List.mem_map_of_mem hk)

/-- Where ids are distinct, only one job is the first with its id. -/
theorem refreshFirst_eq_map (h : (jobs.map (·.id)).Nodup) (id : JobId) (worker : WorkerId)
    (now : Millis) : refreshFirst id worker now jobs =
      jobs.map fun j => if j.id == id && j.isHeldBy worker then j.heardAt now else j := by
  induction jobs with
  | nil => rfl
  | cons j jobs ih =>
    obtain ⟨hj, hjobs⟩ := List.nodup_cons.1 h
    rw [refreshFirst, List.map_cons]
    by_cases hid : j.id = id
    · subst hid
      have hothers : ∀ k ∈ jobs,
          (if k.id == j.id && k.isHeldBy worker then k.heardAt now else k) = k := by
        intro k hk
        rw [beq_id_of_notMem hj k hk, Bool.false_and, if_neg Bool.false_ne_true]
      rw [if_pos rfl, List.map_congr_left hothers, List.map_id', Job.refreshedBy_eq,
        beq_self_eq_true, Bool.true_and]
    · rw [if_neg hid, ih hjobs, beq_false_of_ne hid, Bool.false_and, if_neg Bool.false_ne_true]

/-- And a completion can only be about one job. -/
theorem eraseP_eq_filter (h : (jobs.map (·.id)).Nodup) (id : JobId) (worker : WorkerId) :
    jobs.eraseP (Mutation.complete id worker).completes =
      jobs.filter fun j => !(Mutation.complete id worker).completes j := by
  induction jobs with
  | nil => rfl
  | cons j jobs ih =>
    obtain ⟨hj, hjobs⟩ := List.nodup_cons.1 h
    by_cases hdone : (Mutation.complete id worker).completes j
    · obtain rfl : j.id = id := beq_iff_eq.1 (Bool.and_eq_true_iff.1 hdone).1
      have hothers : ∀ k ∈ jobs, (!(Mutation.complete j.id worker).completes k) = true := by
        intro k hk
        rw [Mutation.completes, beq_id_of_notMem hj k hk, Bool.false_and, Bool.not_false]
      rw [List.eraseP_cons_of_pos hdone, List.filter_cons_of_neg (by simpa using hdone),
        List.filter_eq_self.2 hothers]
    · rw [List.eraseP_cons_of_neg hdone, List.filter_cons_of_pos (by simpa using hdone), ih hjobs]

/-- Who is done is counted once, whether by the first report or by others. -/
theorem countP_complete (h : (jobs.map (·.id)).Nodup) (id : JobId) (worker : WorkerId)
    (ms : List Mutation) :
    (jobs.find? (Mutation.complete id worker).completes).toList.length +
        (jobs.eraseP (Mutation.complete id worker).completes).countP
          (fun j => ms.any (·.completes j)) =
      jobs.countP fun j => (Mutation.complete id worker :: ms).any (·.completes j) := by
  have hfound : (jobs.find? (Mutation.complete id worker).completes).toList.countP
      (fun j => (Mutation.complete id worker :: ms).any (·.completes j)) =
      (jobs.find? (Mutation.complete id worker).completes).toList.length := by
    refine List.countP_eq_length.2 fun j hj => ?_
    rw [List.any_cons, List.find?_some (Option.mem_toList.1 hj), Bool.true_or]
  have hothers : (jobs.eraseP (Mutation.complete id worker).completes).countP
      (fun j => (Mutation.complete id worker :: ms).any (·.completes j)) =
      (jobs.eraseP (Mutation.complete id worker).completes).countP
        (fun j => ms.any (·.completes j)) := by
    refine List.countP_congr fun j hj => ?_
    rw [eraseP_eq_filter h, List.mem_filter, Bool.not_eq_true'] at hj
    rw [List.any_cons, hj.2, Bool.false_or]
  rw [← (perm_eraseP jobs).countP_eq, List.countP_append, hfound, hothers, Nat.add_comm]

theorem reported_heartbeat (h : d.ids.Nodup) (id : JobId) (worker : WorkerId) (ms : List Mutation)
    (now : Millis) :
    (d.heartbeat id worker now).reported ms now = d.reported (.heartbeat id worker :: ms) now := by
  have hcompletes : (fun j : Job => (Mutation.heartbeat id worker :: ms).any (·.completes j)) =
      fun j => ms.any (·.completes j) := rfl
  simp only [reported, heartbeat, refreshFirst_eq_map h, List.filterMap_map, List.countP_map,
    hcompletes, Function.comp_def, Job.reported_heartbeat]
  congr 3
  refine List.countP_congr fun j _ => ?_
  split
  · simp only [Job.completes_heardAt]
  · rfl

theorem reported_complete (h : d.ids.Nodup) (id : JobId) (worker : WorkerId) (ms : List Mutation)
    (now : Millis) (ids : IdSupply) :
    (d.turn (.mutate (.complete id worker) now ids)).reported ms now =
      d.reported (.complete id worker :: ms) now := by
  have hjobs : (d.turn (.mutate (.complete id worker) now ids)).jobs =
      d.jobs.eraseP (Mutation.complete id worker).completes := jobs_complete d id worker
  have htotal := completedTotal_turn d (.mutate (.complete id worker) now ids)
  have hbroker := turn_aboutJobs (d := d) (t := .mutate (.complete id worker) now ids) trivial
  have hleft (j : Job) : (if (!(Mutation.complete id worker).completes j) = true then
      Job.reported ms now j else none) = Job.reported (.complete id worker :: ms) now j := by
    rw [← Job.reported_complete, Mutation.completes]
    cases j.id == id && j.isHeldBy worker <;> rfl
  have hgone : d.completed (.mutate (.complete id worker) now ids) =
      (d.jobs.find? (Mutation.complete id worker).completes).toList := rfl
  rw [reported, hjobs, htotal, hbroker.1, hbroker.2, hgone, UInt64.add_assoc, ← UInt64.ofNat_add,
    countP_complete h, eraseP_eq_filter h, List.filterMap_filter]
  simp only [hleft]
  rfl

theorem reported_nil (d : Document) (now : Millis) : d.reported [] now = d := by
  have hjobs : d.jobs.filterMap (Job.reported [] now) = d.jobs := List.filterMap_some
  have hnone : d.jobs.countP (fun j => ([] : List Mutation).any (·.completes j)) = 0 :=
    List.countP_eq_zero.2 fun _ _ => Bool.false_ne_true
  rw [reported, hjobs, hnone]
  exact congrArg (Document.mk d.broker d.brokerHeartbeat d.jobs) (UInt64.add_zero d.completedTotal)

/-- One report before the others is one more among them. -/
theorem reported_apply (h : d.ids.Nodup) (hm : m.isReport) (ms : List Mutation) (now : Millis)
    (ids : IdSupply) : (d.apply m now ids).document.reported ms now = d.reported (m :: ms) now := by
  cases m with
  | heartbeat id worker => exact reported_heartbeat h id worker ms now
  | complete id worker => exact reported_complete h id worker ms now ids
  | enqueue | claim | registerBroker | renewBroker => cases hm

/-- No report brings in a job. -/
theorem nodup_ids_apply (h : d.ids.Nodup) (hm : m.isReport) (now : Millis) (ids : IdSupply) :
    (d.apply m now ids).document.ids.Nodup := by
  have hcreated : (Turn.mutate m now ids).created = [] := by
    cases m with
    | heartbeat | complete => rfl
    | enqueue | claim | registerBroker | renewBroker => cases hm
  have hperm := ids_turn_perm d (.mutate m now ids)
  rw [hcreated, List.map_nil, List.append_nil] at hperm
  exact (hperm.nodup_iff.2 h).of_append_left

/-! ## All reports -/

theorem applyAll_reports (h : d.ids.Nodup) (hms : ∀ m ∈ ms, m.isReport) (now : Millis)
    (ids : IdSupply) : (d.applyAll ms now ids).document = d.reported ms now := by
  induction ms generalizing d ids with
  | nil => exact (reported_nil d now).symm
  | cons m ms ih =>
    obtain ⟨hm, hms⟩ := List.forall_mem_cons.1 hms
    rw [applyAll, ih (nodup_ids_apply h hm now ids) hms, reported_apply h hm]

theorem reported_perm {ms' : List Mutation} (h : ms'.Perm ms) (d : Document) (now : Millis) :
    d.reported ms' now = d.reported ms now := by
  simp only [reported, Job.reported_perm h, h.any_eq]

/-- **The order of reports does not matter**: every job whose holder is done with it is removed and
counted, and of the others each whose holder was heard of has its lease renewed. -/
theorem reports_of_distinct (d : Document) (ms : List Mutation) (now : Millis) (h : d.ids.Nodup)
    (hms : ∀ m ∈ ms, m.isReport) : d.Reports ms now where
  document ms' hperm ids := by
    rw [applyAll_reports h (fun m hm => hms m (hperm.mem_iff.1 hm)), reported_perm hperm]
  counted hlimit := by
    rw [UInt64.size] at hlimit
    rw [reported, UInt64.toNat_add, UInt64.toNat_ofNat', Nat.add_mod_mod]
    exact Nat.mod_eq_of_lt hlimit

/-- Two workers have a job each, and others speak up as well. -/
def desk : Document :=
  let job (id : JobId) (status : Job.Status) : Job := ⟨id, status, .null, none, 0, 1, none⟩
  ⟨some "broker", 7, [job "0" (.inProgress ⟨"first", 10⟩), job "1" .unclaimed,
    job "2" (.inProgress ⟨"second", 20⟩)], 4⟩

def chatter : List Mutation :=
  [.complete "2" "first", .heartbeat "0" "first", .complete "0" "first", .heartbeat "2" "second",
    .complete "0" "first", .heartbeat "0" "first", .complete "1" "second", .heartbeat "3" "first"]

/-- Of all that only the completion of one job and the heartbeat of the other count. -/
theorem reports_desk :
    desk.ids.Nodup ∧ (∀ m ∈ chatter, m.isReport) ∧ desk.Reports chatter 50 ∧
      (desk.applyAll chatter.reverse 50 ⟨toString, 0⟩).document =
        ⟨some "broker", 7, [⟨"1", .unclaimed, .null, none, 0, 1, none⟩,
          ⟨"2", .inProgress ⟨"second", 50⟩, .null, none, 0, 1, none⟩], 5⟩ := by
  have h := reports_of_distinct desk chatter 50 (by decide) (by decide)
  refine ⟨by decide, by decide, h, ?_⟩
  rw [h.document chatter.reverse (List.reverse_perm chatter)]
  decide

end Document

end LeaseQueue
