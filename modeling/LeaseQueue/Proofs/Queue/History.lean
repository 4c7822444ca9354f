import LeaseQueue.Proofs.Queue.Passes
import Mathlib.Data.List.Nodup

/-!
# Histories

A run is any list of passes, each with its own clock reading, its own timeout and its own
mutations, in the order in which they took effect.  Its history notes what every pass did: the
sweep, and then mutation by mutation the jobs that came, that were handed out by a claim, whose
lease was renewed by a heartbeat that counted, and that were completed.

Each job moves through a small machine of its own (`Moves`): absent, waiting, leased.  A claim
takes it from waiting to leased, and only a sweep that finds the lease stale takes it back.  What
the history notes is all that happens to any job:

  `accounts_history : (d.ids ++ enlisted (d.history n ps)).Nodup →
    Accounts d (d.afterPasses ps) (d.history n ps)`
-/

namespace LeaseQueue

/-! ## Histories -/

/-- One write of some engine, at its reading of the clock and with its timeout. -/
structure Pass where
  now : Millis
  timeout : Millis
  mutations : List Mutation
  ids : IdSupply

inductive Deed where
  | sweep (now timeout : Millis)
  | enlist (ids : List JobId)
  | hand (job : JobId) (worker : WorkerId) (now : Millis)
  | renew (job : JobId) (worker : WorkerId) (now : Millis)
  | complete (job : JobId) (worker : WorkerId)
deriving DecidableEq, Repr

/-- A deed, and the number of the pass that did it. -/
structure Entry where
  pass : Nat
  deed : Deed
deriving DecidableEq, Repr

namespace Entry

def hands (job : JobId) (e : Entry) : Prop := ∃ worker now, e.deed = .hand job worker now

def renews (job : JobId) (e : Entry) : Prop := ∃ worker now, e.deed = .renew job worker now

def enlisted (e : Entry) : List JobId :=
  match e.deed with
  | .enlist ids => ids
  | _ => []

/-- When the holder of the job was last heard of, if it was `since` before this. -/
def heard (job : JobId) (since : Millis) (e : Entry) : Millis :=
  match e.deed with
  | .hand k _ now | .renew k _ now => if k = job then now else since
  | _ => since

end Entry

/-- When the holder of the job was last heard of, if it was `since` before all this. -/
def lastHeard (job : JobId) (since : Millis) (es : List Entry) : Millis :=
  es.foldl (Entry.heard job) since

/-- The ids that were drawn for new jobs. -/
def enlisted (es : List Entry) : List JobId := es.flatMap Entry.enlisted

namespace Document

def ids (d : Document) : List JobId := d.jobs.map (·.id)

def holds (d : Document) (job : JobId) (worker : WorkerId) : Bool :=
  (d.job? job).any (·.isHeldBy worker)

/-- What a mutation did, by its result; a heartbeat and a completion have none, and count if the
worker holds the job. -/
def deed? (d : Document) (m : Mutation) (now : Millis) (ids : IdSupply) : Option Deed :=
  match m, (d.apply m now ids).result with
  | .enqueue _, .enqueued drawn => some (.enlist drawn)
  | .claim worker _, .claimed (some job) => some (.hand job.id worker now)
  | .heartbeat job worker, _ => if d.holds job worker then some (.renew job worker now) else none
  | .complete job worker, _ => if d.holds job worker then some (.complete job worker) else none
  | _, _ => none

/-- What the mutations of a pass did. -/
def deeds (n : Nat) (d : Document) : List Mutation → Millis → IdSupply → List Entry
  | [], _, _ => []
  | m :: ms, now, ids =>
    let one := d.apply m now ids
    (d.deed? m now ids).toList.map (Entry.mk n) ++ deeds n one.document ms now one.ids

/-- The document that a pass leaves. -/
def afterPass (d : Document) (p : Pass) : Document :=
  (d.pass p.mutations p.now p.timeout p.ids).document

def afterPasses (d : Document) (ps : List Pass) : Document := ps.foldl afterPass d

/-- What the passes did, the first of them being number `n`. -/
def history (n : Nat) (d : Document) : List Pass → List Entry
  | [] => []
  | p :: ps =>
    ⟨n, .sweep p.now p.timeout⟩ :: (d.sweep p.now p.timeout).deeds n p.mutations p.now p.ids ++
      history (n + 1) (d.afterPass p) ps

end Document

/-! ## The way of one job -/

/-- How a document stands to a job. -/
inductive Standing where
  | absent
  | waiting
  | leased (lease : Lease)

def Standing.of : Option Job → Standing
  | none => .absent
  | some j =>
    match j.status with
    | .unclaimed => .waiting
    | .inProgress lease => .leased lease

def Document.standing (d : Document) (job : JobId) : Standing := .of (d.job? job)

/-- What a deed can do to a job. -/
inductive Moves (job : JobId) : Deed → Standing → Standing → Prop where
  | spared {now timeout s} (h : ∀ lease, s = .leased lease → ¬ now.isPast lease.heartbeat timeout) :
    Moves job (.sweep now timeout) s s
  | givenBack {now timeout lease} (h : now.isPast lease.heartbeat timeout) :
    Moves job (.sweep now timeout) (.leased lease) .waiting
  | dropped {now timeout lease} (h : now.isPast lease.heartbeat timeout) :
    Moves job (.sweep now timeout) (.leased lease) .absent
  | enlisted {ids} (h : job ∈ ids) : Moves job (.enlist ids) .absent .waiting
  | unlisted {ids s} (h : job ∉ ids) : Moves job (.enlist ids) s s
  | handed {worker now} : Moves job (.hand job worker now) .waiting (.leased ⟨worker, now⟩)
  | renewed {worker now since} :
    Moves job (.renew job worker now) (.leased ⟨worker, since⟩) (.leased ⟨worker, now⟩)
  | completed {worker since} : Moves job (.complete job worker) (.leased ⟨worker, since⟩) .absent
  | otherHanded {k worker now s} (h : k ≠ job) : Moves job (.hand k worker now) s s
  | otherRenewed {k worker now s} (h : k ≠ job) : Moves job (.renew k worker now) s s
  | otherCompleted {k worker s} (h : k ≠ job) : Moves job (.complete k worker) s s

/-- A history takes a job from one standing to another. -/
inductive Leads (job : JobId) : List Entry → Standing → Standing → Prop where
  | nil {s} : Leads job [] s s
  | cons {e es s s' s''} (h : Moves job e.deed s s') (hs : Leads job es s' s'') :
    Leads job (e :: es) s s''

namespace Leads

variable {job : JobId} {es fs : List Entry} {s s' s'' : Standing}

theorem single {e : Entry} (h : Moves job e.deed s s') : Leads job [e] s s' := .cons h .nil

theorem append (h : Leads job es s s') (h' : Leads job fs s' s'') : Leads job (es ++ fs) s s'' := by
  induction h with
  | nil => exact h'
  | cons hm _ ih => exact .cons hm (ih h')

theorem of_append (h : Leads job (es ++ fs) s s'') :
    ∃ s', Leads job es s s' ∧ Leads job fs s' s'' := by
  induction es generalizing s with
  | nil => exact ⟨s, .nil, h⟩
  | cons e es ih =>
    cases h with
    | cons hm hs =>
      obtain ⟨s', hes, hfs⟩ := ih hs
      exact ⟨s', .cons hm hes, hfs⟩

end Leads

/-! ## Documents move each job so -/

namespace Document

theorem find?_id_eq_none {jobs : List Job} {id : JobId} :
    jobs.find? (·.id == id) = none ↔ id ∉ jobs.map (·.id) := by
  simp only [List.find?_eq_none, beq_iff_eq, List.mem_map, not_exists, not_and]

/-- Where ids are distinct, a job put in another's place is found under its id, and nothing else
changes. -/
theorem find?_replace {a b : List Job} {j j' : Job} (hid : j'.id = j.id)
    (hd : ((a ++ j :: b).map (·.id)).Nodup) (id : JobId) :
    (a ++ j' :: b).find? (·.id == id) =
      if j.id = id then some j' else (a ++ j :: b).find? (·.id == id) := by
  rw [List.find?_append, List.find?_append]
  by_cases h : j.id = id
  · subst h
    have hj : j.id ∉ a.map (·.id) := by
      rw [List.map_append, List.map_cons] at hd
      exact fun hj => List.disjoint_of_nodup_append hd hj List.mem_cons_self
    rw [if_pos rfl, find?_id_eq_none.2 hj, Option.none_or,
      List.find?_cons_of_pos (by simpa using hid)]
  · have h' : ¬ j'.id = id := hid ▸ h
    rw [if_neg h, List.find?_cons_of_neg (by simpa using h'),
      List.find?_cons_of_neg (by simpa using h)]

theorem find?_mem {a b : List Job} {j : Job} (hd : ((a ++ j :: b).map (·.id)).Nodup) :
    (a ++ j :: b).find? (·.id == j.id) = some j :=
  (find?_replace rfl hd j.id).trans (if_pos rfl)

/-- Where ids are distinct, a job taken out is gone, and nothing else changes. -/
theorem find?_remove {a b : List Job} {j : Job} (hd : ((a ++ j :: b).map (·.id)).Nodup)
    (id : JobId) :
    (a ++ b).find? (·.id == id) =
      if j.id = id then none else (a ++ j :: b).find? (·.id == id) := by
  by_cases h : j.id = id
  · subst h
    rw [if_pos rfl, find?_id_eq_none, List.map_append]
    rw [List.map_append, List.map_cons] at hd
    exact (List.nodup_middle.1 hd).notMem
  · rw [if_neg h, List.find?_append, List.find?_append, List.find?_cons_of_neg]
    simpa using h

theorem claimFirst_cases (worker : WorkerId) (now : Millis) (types : List String)
    (jobs : List Job) :
    claimFirst worker now types jobs = (jobs, none) ∨
      ∃ a j b, jobs = a ++ j :: b ∧ j.isUnclaimed ∧
        claimFirst worker now types jobs = (a ++ j.claimedBy worker now :: b, some j.toClaimed) := by
  induction jobs with
  | nil => exact .inl rfl
  | cons j jobs ih =>
    unfold claimFirst
    by_cases hj : j.isEligible types
    · rw [if_pos hj]
      exact .inr ⟨[], j, jobs, rfl, (Bool.and_eq_true_iff.1 hj).1, rfl⟩
    · rw [if_neg hj]
      rcases ih with h | ⟨a, k, b, rfl, hk, h⟩
      · exact .inl (by rw [h])
      · exact .inr ⟨j :: a, k, b, rfl, hk, by rw [h]; rfl⟩

theorem refreshFirst_cases (job : JobId) (worker : WorkerId) (now : Millis) (jobs : List Job) :
    (jobs.find? (·.id == job) = none ∧ refreshFirst job worker now jobs = jobs) ∨
      ∃ a j b, jobs = a ++ j :: b ∧ j.id = job ∧ jobs.find? (·.id == job) = some j ∧
        refreshFirst job worker now jobs = a ++ j.refreshedBy worker now :: b := by
  induction jobs with
  | nil => exact .inl ⟨rfl, rfl⟩
  | cons j jobs ih =>
    unfold refreshFirst
    by_cases hj : j.id = job
    · rw [if_pos hj]
      exact .inr ⟨[], j, jobs, rfl, hj, List.find?_cons_of_pos (by simpa using hj), rfl⟩
    · rw [if_neg hj, List.find?_cons_of_neg (by simpa using hj)]
      rcases ih with ⟨hnone, h⟩ | ⟨a, k, b, rfl, hk, hfind, h⟩
      · exact .inl ⟨hnone, by rw [h]⟩
      · exact .inr ⟨j :: a, k, b, rfl, hk, hfind, by rw [h]; rfl⟩

theorem ids_replace {a b : List Job} {j j' : Job} (hid : j'.id = j.id) :
    (a ++ j' :: b).map (·.id) = (a ++ j :: b).map (·.id) := by
  rw [List.map_append, List.map_append, List.map_cons, List.map_cons, hid]

theorem lease?_eq_some_of_isHeldBy {j : Job} {worker : WorkerId} (h : j.isHeldBy worker) :
    ∃ since, j.status = .inProgress ⟨worker, since⟩ := by
  obtain ⟨id, status, payload, jobType, createdAt, attempts, maxAttempts⟩ := j
  cases status with
  | unclaimed => cases h
  | inProgress lease =>
    obtain ⟨holder, since⟩ := lease
    have hholder : holder = worker := by simpa [Job.isHeldBy, Job.lease?] using h
    exact ⟨since, by rw [hholder]⟩

theorem status_of_isUnclaimed {j : Job} (h : j.isUnclaimed) : j.status = .unclaimed := by
  obtain ⟨id, status, payload, jobType, createdAt, attempts, maxAttempts⟩ := j
  cases status with
  | unclaimed => rfl
  | inProgress lease => cases h

/-- The deeds of a step take every job from its standing before to its standing after, and the
ids after it are those before it and those enlisted. -/
structure Accounts (d d' : Document) (es : List Entry) : Prop where
  leads : ∀ job, Leads job es (d.standing job) (d'.standing job)
  ids : d'.ids.Sublist (d.ids ++ enlisted es)

theorem Accounts.of_jobs {d d' : Document} (h : d'.jobs = d.jobs) : Accounts d d' [] := by
  refine ⟨fun job => ?_, ?_⟩
  · rw [standing, standing, job?, job?, h]
    exact .nil
  · rw [Document.ids, Document.ids, h, enlisted, List.flatMap_nil, List.append_nil]

theorem Accounts.append {d d' d'' : Document} {es fs : List Entry} (h : Accounts d d' es)
    (h' : Accounts d' d'' fs) : Accounts d d'' (es ++ fs) := by
  refine ⟨fun job => (h.leads job).append (h'.leads job), ?_⟩
  rw [enlisted, List.flatMap_append, ← List.append_assoc]
  exact h'.ids.trans (h.ids.append_right _)

theorem standing_of_find? {d : Document} {job : JobId} {found : Option Job}
    (h : d.jobs.find? (·.id == job) = found) : d.standing job = .of found := congrArg Standing.of h

theorem id_of_swept {now timeout : Millis} {j j' : Job} (h : j.swept now timeout = some j') :
    j'.id = j.id := by
  unfold Job.swept at h
  split at h
  · split at h
    · cases h
    · cases h
      rfl
  · cases h
    rfl

theorem find?_sweep {now timeout : Millis} {jobs : List Job} (hd : (jobs.map (·.id)).Nodup)
    (job : JobId) :
    (jobs.filterMap (Job.swept now timeout)).find? (·.id == job) =
      (jobs.find? (·.id == job)).bind (Job.swept now timeout) := by
  induction jobs with
  | nil => rfl
  | cons j jobs ih =>
    obtain ⟨hj, hjobs⟩ := List.nodup_cons.1 hd
    rw [List.filterMap_cons]
    by_cases h : j.id = job
    · rw [List.find?_cons_of_pos (by simpa using h), Option.bind_some]
      cases hswept : j.swept now timeout with
      | none =>
        rw [← h]
        simp only [find?_id_eq_none, List.mem_map, List.mem_filterMap, not_exists, not_and]
        rintro j' ⟨k, hk, hk'⟩ hid
        exact hj (List.mem_map.2 ⟨k, hk, (id_of_swept hk').symm.trans hid⟩)
      | some j' =>
        exact List.find?_cons_of_pos (by simpa using (id_of_swept hswept).trans h)
    · rw [List.find?_cons_of_neg (by simpa using h), ← ih hjobs]
      cases hswept : j.swept now timeout with
      | none => rfl
      | some j' =>
        exact List.find?_cons_of_neg (by simpa using (id_of_swept hswept).symm ▸ h)

theorem moves_swept (now timeout : Millis) (job : JobId) (found : Option Job) :
    Moves job (.sweep now timeout) (.of found) (.of (found.bind (Job.swept now timeout))) := by
  cases found with
  | none => exact .spared fun _ h => nomatch h
  | some j =>
    rw [Option.bind_some, Job.swept]
    by_cases hstale : j.isStale now timeout
    · obtain ⟨lease, hlease⟩ : ∃ lease, j.status = .inProgress lease := by
        cases h : j.status with
        | unclaimed => simp [Job.isStale, Job.lease?, h] at hstale
        | inProgress lease => exact ⟨lease, rfl⟩
      have hpast : now.isPast lease.heartbeat timeout := by
        simpa [Job.isStale, Job.lease?, hlease] using hstale
      have hof : Standing.of (some j) = .leased lease := by simp only [Standing.of, hlease]
      rw [if_pos hstale, hof]
      split
      · exact .dropped hpast
      · exact .givenBack hpast
    · rw [if_neg hstale]
      refine .spared fun lease h hpast => hstale ?_
      cases hs : j.status with
      | unclaimed => simp [Standing.of, hs] at h
      | inProgress l =>
        simp only [Standing.of, hs, Standing.leased.injEq] at h
        simpa [Job.isStale, Job.lease?, hs, h] using hpast

theorem accounts_sweep {d : Document} (hd : d.ids.Nodup) (n : Nat) (now timeout : Millis) :
    Accounts d (d.sweep now timeout) [⟨n, .sweep now timeout⟩] := by
  refine ⟨fun job => .single ?_, ?_⟩
  · rw [standing_of_find? (d := d.sweep now timeout) (find?_sweep hd job)]
    exact moves_swept now timeout job _
  · rw [enlisted, List.flatMap_singleton, Entry.enlisted, List.append_nil]
    have hids (jobs : List Job) :
        ((jobs.filterMap (Job.swept now timeout)).map (·.id)).Sublist (jobs.map (·.id)) := by
      induction jobs with
      | nil => exact .slnil
      | cons j jobs ih =>
        rw [List.filterMap_cons]
        cases hswept : j.swept now timeout with
        | none => exact ih.cons _
        | some j' =>
          rw [List.map_cons, List.map_cons, id_of_swept hswept]
          exact ih.cons_cons _
    exact hids d.jobs

/-- The jobs with one of them changed under its id stand as before, but for that one. -/
theorem standing_replace {d : Document} {a b : List Job} {j j' : Job} (hjobs : d.jobs = a ++ j :: b)
    (hd : d.ids.Nodup) (hid : j'.id = j.id) (job : JobId) :
    { d with jobs := a ++ j' :: b }.standing job =
      if j.id = job then .of (some j') else d.standing job := by
  rw [ids, hjobs] at hd
  rw [standing, standing, job?, job?, hjobs, find?_replace hid hd]
  split <;> rfl

theorem standing_self {d : Document} {a b : List Job} {j : Job} (hjobs : d.jobs = a ++ j :: b)
    (hd : d.ids.Nodup) : d.standing j.id = .of (some j) := by
  rw [ids, hjobs] at hd
  rw [standing, job?, hjobs, find?_mem hd]

theorem accounts_replace {d : Document} {a b : List Job} {j j' : Job} {e : Entry}
    (hjobs : d.jobs = a ++ j :: b) (hd : d.ids.Nodup) (hid : j'.id = j.id)
    (hself : Moves j.id e.deed (.of (some j)) (.of (some j')))
    (hother : ∀ job, j.id ≠ job → ∀ s, Moves job e.deed s s) :
    Accounts d { d with jobs := a ++ j' :: b } [e] := by
  refine ⟨fun job => .single ?_, ?_⟩
  · rw [standing_replace hjobs hd hid]
    by_cases h : j.id = job
    · subst h
      rw [if_pos rfl, standing_self hjobs hd]
      exact hself
    · rw [if_neg h]
      exact hother job h _
  · have hids : { d with jobs := a ++ j' :: b }.ids = d.ids := by
      rw [ids, ids, hjobs, ids_replace hid]
    rw [hids]
    exact List.sublist_append_left _ _

theorem ids_ofSpecs (now : Millis) (specs : List JobSpec) (ids : List JobId)
    (h : ids.length = specs.length) :
    (List.zipWith (fun spec id => Job.ofSpec spec id now) specs ids).map (·.id) = ids := by
  induction specs generalizing ids with
  | nil => rw [List.length_eq_zero_iff.1 h, List.zipWith_nil_left, List.map_nil]
  | cons spec specs ih =>
    obtain ⟨id, ids, rfl⟩ := List.exists_cons_of_length_eq_add_one h
    rw [List.zipWith_cons_cons, List.map_cons, ih ids (Nat.succ.inj h)]
    rfl

theorem accounts_enqueue {d : Document} (n : Nat) (specs : List JobSpec) (drawn : List JobId)
    (now : Millis) (hlength : drawn.length = specs.length) (hd : (d.ids ++ drawn).Nodup) :
    Accounts d (d.enqueue specs drawn now) [⟨n, .enlist drawn⟩] := by
  have hids := ids_ofSpecs now specs drawn hlength
  refine ⟨fun job => .single ?_, ?_⟩
  · by_cases hjob : job ∈ drawn
    · have habsent : d.jobs.find? (·.id == job) = none :=
        find?_id_eq_none.2 fun h => List.disjoint_of_nodup_append hd h hjob
      cases hnew : (List.zipWith (fun spec id => Job.ofSpec spec id now) specs drawn).find?
          (·.id == job) with
      | none =>
        have hnone := find?_id_eq_none.1 hnew
        rw [hids] at hnone
        exact absurd hjob hnone
      | some j =>
        have hstatus : j.status = .unclaimed := by
          have hj := List.mem_of_find?_eq_some hnew
          rw [← List.map_uncurry_zip_eq_zipWith] at hj
          obtain ⟨_, _, rfl⟩ := List.mem_map.1 hj
          rfl
        have hafter : (d.enqueue specs drawn now).standing job = .waiting := by
          rw [standing_of_find? (d := d.enqueue specs drawn now) (List.find?_append ..), habsent,
            Option.none_or, hnew]
          simp only [Standing.of, hstatus]
        rw [standing_of_find? habsent, hafter]
        exact .enlisted hjob
    · have hnew : (List.zipWith (fun spec id => Job.ofSpec spec id now) specs drawn).find?
          (·.id == job) = none := find?_id_eq_none.2 (hids.symm ▸ hjob)
      rw [standing_of_find? (d := d.enqueue specs drawn now) (List.find?_append ..), hnew,
        Option.or_none]
      exact .unlisted hjob
  · rw [Document.ids, enqueue, List.map_append, hids, enlisted, List.flatMap_singleton]
    exact .refl _

theorem accounts_claim {d : Document} (n : Nat) (worker : WorkerId) (types : List String)
    (now : Millis) (hd : d.ids.Nodup) :
    Accounts d (d.claim worker now types).1
      ((d.claim worker now types).2.map fun job => ⟨n, .hand job.id worker now⟩).toList := by
  rcases claimFirst_cases worker now types d.jobs with h | ⟨a, j, b, hjobs, hj, h⟩
  · rw [claim, h]
    exact .of_jobs rfl
  · rw [claim, h]
    refine accounts_replace hjobs hd rfl ?_ fun job hjob s => .otherHanded hjob
    simp only [Standing.of, status_of_isUnclaimed hj, Job.claimedBy]
    exact .handed

theorem accounts_heartbeat {d : Document} (n : Nat) (job : JobId) (worker : WorkerId)
    (now : Millis) (hd : d.ids.Nodup) :
    Accounts d (d.heartbeat job worker now)
      (if d.holds job worker then [⟨n, .renew job worker now⟩] else []) := by
  rcases refreshFirst_cases job worker now d.jobs with
    ⟨hfind, h⟩ | ⟨a, j, b, hjobs, hid, hfind, h⟩
  · have hholds : d.holds job worker = false := by rw [holds, job?, hfind, Option.any_none]
    rw [hholds, if_neg Bool.false_ne_true]
    exact .of_jobs h
  · have hholds : d.holds job worker = j.isHeldBy worker := by
      rw [holds, job?, hfind, Option.any_some]
    rw [hholds, heartbeat, h, Job.refreshedBy]
    by_cases hheld : j.isHeldBy worker
    · rw [if_pos hheld, if_pos hheld]
      obtain ⟨since, hstatus⟩ := lease?_eq_some_of_isHeldBy hheld
      refine accounts_replace hjobs hd rfl ?_ fun k hk s => .otherRenewed (hid ▸ hk)
      simp only [Standing.of, hstatus, hid]
      exact .renewed
    · rw [if_neg hheld, if_neg hheld]
      exact .of_jobs hjobs.symm

theorem accounts_complete {d : Document} (n : Nat) (job : JobId) (worker : WorkerId)
    (hd : d.ids.Nodup) :
    Accounts d (d.complete job worker)
      (if d.holds job worker then [⟨n, .complete job worker⟩] else []) := by
  by_cases hany : d.jobs.any fun j => j.id == job && j.isHeldBy worker
  · obtain ⟨k, hk, hdone⟩ := List.any_eq_true.1 hany
    obtain ⟨j, a, b, -, hj, hjobs, herase⟩ :=
      List.exists_of_eraseP (p := fun j => j.id == job && j.isHeldBy worker) hk hdone
    obtain ⟨hid, hheld⟩ := Bool.and_eq_true_iff.1 hj
    replace hid := beq_iff_eq.1 hid
    obtain ⟨since, hstatus⟩ := lease?_eq_some_of_isHeldBy hheld
    have hself := standing_self hjobs hd
    rw [ids, hjobs] at hd
    have hholds : d.holds job worker := by
      rw [holds, job?, ← hid, hjobs, find?_mem hd, Option.any_some, hheld]
    rw [if_pos hholds, complete, if_pos hany, herase]
    have hafter (k : JobId) :
        { d with jobs := a ++ b, completedTotal := d.completedTotal + 1 }.standing k =
          if j.id = k then .absent else d.standing k := by
      rw [standing, standing, job?, job?, hjobs, find?_remove hd]
      split <;> rfl
    refine ⟨fun k => .single ?_, ?_⟩
    · rw [hafter]
      by_cases h : j.id = k
      · subst h
        rw [if_pos rfl, hself, ← hid]
        simp only [Standing.of, hstatus]
        exact .completed
      · rw [if_neg h]
        exact .otherCompleted (hid ▸ h)
    · rw [Document.ids, Document.ids, hjobs]
      exact (((List.sublist_cons_self j b).append_left a).map _).trans
        (List.sublist_append_left _ _)
  · have hholds : ¬ d.holds job worker := by
      intro h
      rw [holds, job?, Option.any_eq_true] at h
      obtain ⟨j, hfind, hheld⟩ := h
      refine hany (List.any_eq_true.2 ⟨j, List.mem_of_find?_eq_some hfind, ?_⟩)
      exact Bool.and_eq_true_iff.2 ⟨List.find?_some (p := fun j : Job => j.id == job) hfind, hheld⟩
    rw [if_neg hholds, complete, if_neg hany]
    exact .of_jobs rfl

/-- What the history says a mutation did is what it did. -/
theorem accounts_apply {d : Document} (n : Nat) (m : Mutation) (now : Millis) (ids : IdSupply)
    (hd : (d.ids ++ enlisted ((d.deed? m now ids).toList.map (Entry.mk n))).Nodup) :
    Accounts d (d.apply m now ids).document ((d.deed? m now ids).toList.map (Entry.mk n)) := by
  have hown := hd.of_append_left
  cases m with
  | enqueue specs =>
    have hlength : (ids.take specs.length).length = specs.length := by simp [IdSupply.take]
    refine accounts_enqueue n specs _ now hlength ?_
    simpa [deed?, apply, enlisted, Entry.enlisted] using hd
  | claim worker types =>
    have h := accounts_claim n worker types now hown
    cases hclaimed : (d.claim worker now types).2 with
    | none => simpa [deed?, apply, hclaimed] using h
    | some job => simpa [deed?, apply, hclaimed] using h
  | heartbeat job worker =>
    have h := accounts_heartbeat n job worker now hown
    by_cases hholds : d.holds job worker <;> simpa [deed?, apply, hholds] using h
  | complete job worker =>
    have h := accounts_complete n job worker hown
    by_cases hholds : d.holds job worker <;> simpa [deed?, apply, hholds] using h
  | registerBroker address timestamp => exact .of_jobs rfl
  | renewBroker address timestamp =>
    refine .of_jobs ?_
    simp only [apply, renewBroker]
    split <;> rfl

theorem accounts_deeds (n : Nat) (ms : List Mutation) (now : Millis) (ids : IdSupply)
    {d : Document} (hd : (d.ids ++ enlisted (d.deeds n ms now ids)).Nodup) :
    Accounts d (d.applyAll ms now ids).document (d.deeds n ms now ids) := by
  induction ms generalizing d ids with
  | nil => exact .of_jobs rfl
  | cons m ms ih =>
    rw [deeds, enlisted, List.flatMap_append, ← List.append_assoc] at hd
    have hone := accounts_apply n m now ids hd.of_append_left
    exact hone.append (ih _ (hd.sublist (hone.ids.append_right _)))

theorem accounts_history (n : Nat) (ps : List Pass) {d : Document}
    (hd : (d.ids ++ enlisted (d.history n ps)).Nodup) :
    Accounts d (d.afterPasses ps) (d.history n ps) := by
  induction ps generalizing n d with
  | nil => exact .of_jobs rfl
  | cons p ps ih =>
    have hsweep := accounts_sweep hd.of_append_left n p.now p.timeout
    rw [history, List.cons_append, enlisted, List.flatMap_cons, ← List.append_assoc,
      List.flatMap_append, ← List.append_assoc] at hd
    have hswept := hd.sublist ((hsweep.ids.append_right _).append_right _)
    have hdeeds := accounts_deeds n p.mutations p.now p.ids hswept.of_append_left
    have hmore := ih (n + 1) (hswept.sublist (hdeeds.ids.append_right _))
    exact hsweep.append (hdeeds.append hmore)

end Document

/-! ## Passes in order -/

/-- Passes are noted in order, each with its sweep first. -/
def Entry.Before (e f : Entry) : Prop :=
  e.pass ≤ f.pass ∧ ∀ now timeout, f.deed = .sweep now timeout → e.pass < f.pass

namespace Document

theorem deed?_ne_sweep (d : Document) (m : Mutation) (now : Millis) (ids : IdSupply)
    (at' timeout : Millis) : d.deed? m now ids ≠ some (.sweep at' timeout) := by
  intro h
  unfold deed? at h
  split at h
  · cases h
  · cases h
  · split at h <;> cases h
  · split at h <;> cases h
  · cases h

theorem of_mem_deeds {n : Nat} {ms : List Mutation} {now : Millis} {ids : IdSupply} {d : Document}
    {e : Entry} (h : e ∈ d.deeds n ms now ids) :
    e.pass = n ∧ ∀ now timeout, e.deed ≠ .sweep now timeout := by
  induction ms generalizing d ids with
  | nil => cases h
  | cons m ms ih =>
    rcases List.mem_append.1 h with h | h
    · obtain ⟨deed, hdeed, rfl⟩ := List.mem_map.1 h
      refine ⟨rfl, fun now timeout heq => ?_⟩
      have heq : deed = .sweep now timeout := heq
      exact deed?_ne_sweep _ _ _ _ _ _ (heq ▸ Option.mem_toList.1 hdeed)
    · exact ih h

theorem le_pass_of_mem_history {n : Nat} {ps : List Pass} {d : Document} {e : Entry}
    (h : e ∈ d.history n ps) : n ≤ e.pass := by
  induction ps generalizing n d with
  | nil => cases h
  | cons p ps ih =>
    rw [history, List.cons_append] at h
    rcases List.mem_cons.1 h with rfl | h
    · exact Nat.le_refl n
    · rcases List.mem_append.1 h with h | h
      · exact Nat.le_of_eq (of_mem_deeds h).1.symm
      · exact Nat.le_of_succ_le (ih h)

theorem before_history (n : Nat) (ps : List Pass) (d : Document) :
    (d.history n ps).Pairwise Entry.Before := by
  induction ps generalizing n d with
  | nil => exact .nil
  | cons p ps ih =>
    have hlater : ∀ e ∈ (d.afterPass p).history (n + 1) ps, ∀ f : Entry, f.pass = n →
        f.Before e := by
      intro e he f hf
      have hle := le_pass_of_mem_history he
      exact ⟨by omega, fun _ _ _ => by omega⟩
    rw [history, List.cons_append, List.pairwise_cons, List.pairwise_append]
    refine ⟨fun e he => ?_, ?_, ih _ _, fun e he f hf => ?_⟩
    · rcases List.mem_append.1 he with he | he
      · obtain ⟨hpass, hdeed⟩ := of_mem_deeds he
        exact ⟨Nat.le_of_eq hpass.symm, fun _ _ h => absurd h (hdeed _ _)⟩
      · exact hlater e he _ rfl
    · refine List.pairwise_of_forall_mem_list fun e he f hf => ?_
      obtain ⟨hpass, hdeed⟩ := of_mem_deeds hf
      exact ⟨Nat.le_of_eq ((of_mem_deeds he).1.trans hpass.symm), fun _ _ h => absurd h (hdeed _ _)⟩
    · exact hlater f hf e (of_mem_deeds he).1

end Document

end LeaseQueue
