import LeaseQueue.Proofs.Queue.Conservation

/-!
# Attempts

A job's attempts count how often it was handed out, however often its leases went stale in between,
and no job is handed out more often than its limit allows; a limit of zero allows one attempt.

  `((created ts).map (·.id)).Nodup → Tallies ts`

A job that waits has attempts left, unless it was never tried (`Job.IsWithinBudget`), so a claim
takes the job that it leases to its limit at most (`Job.IsTried`).
-/

namespace LeaseQueue

/-! ## How often a job was handed out -/

/-- The job that an entry hands out. -/
def Entry.handed? (e : Entry) : Option JobId :=
  match e.deed with
  | .hand job _ _ => some job
  | _ => none

/-- How often a job was handed out. -/
def handouts (job : JobId) (es : List Entry) : Nat := es.countP (·.handed? == some job)

theorem Entry.handed?_eq_some_iff {e : Entry} {job : JobId} :
    e.handed? = some job ↔ e.hands job := by
  obtain ⟨n, deed⟩ := e
  cases deed with
  | hand k worker now =>
    constructor
    · intro h
      cases h
      exact ⟨worker, now, rfl⟩
    · rintro ⟨_, _, heq⟩
      cases heq
      rfl
  | sweep | enlist | renew | complete => exact ⟨nofun, by rintro ⟨_, _, ⟨⟩⟩⟩

theorem handouts_nil (job : JobId) : handouts job [] = 0 := rfl

theorem handouts_append (job : JobId) (es fs : List Entry) :
    handouts job (es ++ fs) = handouts job es + handouts job fs := List.countP_append

theorem handouts_eq_zero_iff {job : JobId} {es : List Entry} :
    handouts job es = 0 ↔ ∀ e ∈ es, ¬ e.hands job := by
  simp only [handouts, List.countP_eq_zero, beq_iff_eq, Entry.handed?_eq_some_iff]

theorem handouts_hand_cons (job k : JobId) (n : Nat) (worker : WorkerId) (now : Millis)
    (es : List Entry) : handouts job (⟨n, .hand k worker now⟩ :: es) =
      handouts job es + if k = job then 1 else 0 := by
  simp only [handouts, List.countP_cons, Entry.handed?, beq_iff_eq, Option.some.injEq]

/-- Who has a job in hand was given it. -/
theorem Leads.leased_of_hand {job : JobId} {n : Nat} {deed : Deed} {es : List Entry}
    {s s' : Standing} (h : Leads job (es ++ [⟨n, deed⟩]) s s')
    (hhands : Entry.hands job ⟨n, deed⟩) : ∃ lease, s' = .leased lease := by
  obtain ⟨worker, now, rfl⟩ := hhands
  obtain ⟨s'', -, hlast⟩ := h.of_append
  obtain ⟨-, hnil⟩ := hlast.of_hand
  cases hnil
  exact ⟨_, rfl⟩

/-! ## What a turn does to the attempts of a job -/

namespace Job

/-- A job that is leased was tried, and not too often; every job may be tried once. -/
def IsTried (j : Job) : Prop :=
  j.isUnclaimed = false →
    1 ≤ j.attempts.toNat ∧ j.attempts.toNat ≤ max 1 j.attemptLimit.toNat

variable {j j' : Job}

/-- There is room for one more attempt in a job that waits. -/
theorem IsWithinBudget.attempts_lt (h : j.IsWithinBudget) (hj : j.isUnclaimed) :
    j.attempts.toNat + 1 ≤ max 1 j.attemptLimit.toNat := by
  rcases h hj with h0 | hlt
  · rw [h0, UInt32.toNat_zero]
    exact Nat.le_max_left ..
  · rw [UInt32.lt_iff_toNat_lt] at hlt
    omega

theorem max_attemptLimit_lt (j : Job) : max 1 j.attemptLimit.toNat < UInt32.size :=
  Nat.max_lt.2 ⟨by decide, j.attemptLimit.toNat_lt⟩

/-- Counting an attempt on does not overflow. -/
theorem toNat_attempts_claimedBy (h : j.IsWithinBudget) (hj : j.isUnclaimed) (worker : WorkerId)
    (now : Millis) : (j.claimedBy worker now).attempts.toNat = j.attempts.toNat + 1 := by
  have hroom := Nat.lt_of_le_of_lt (h.attempts_lt hj) j.max_attemptLimit_lt
  rw [claimedBy, UInt32.toNat_add, UInt32.toNat_one]
  exact Nat.mod_eq_of_lt hroom

theorem isTried_claimedBy (h : j.IsWithinBudget) (hj : j.isUnclaimed) (worker : WorkerId)
    (now : Millis) : (j.claimedBy worker now).IsTried := by
  intro _
  rw [toNat_attempts_claimedBy h hj]
  exact ⟨Nat.le_add_left 1 _, h.attempts_lt hj⟩

theorem isTried_refreshedBy (h : j.IsTried) (worker : WorkerId) (now : Millis) :
    (j.refreshedBy worker now).IsTried := by
  unfold refreshedBy
  split
  next hheld =>
    obtain ⟨since, hstatus⟩ := Document.lease?_eq_some_of_isHeldBy hheld
    exact fun _ => h (by simp [isUnclaimed, lease?, hstatus])
  · exact h

theorem isTried_swept {now timeout : Millis} (h : j.IsTried) (hj' : j.swept now timeout = some j') :
    j'.IsTried := by
  unfold swept at hj'
  split at hj'
  · split at hj' <;> cases hj'
    exact nofun
  · cases hj'
    exact h

/-- A job that is tried within its limit was handed out within it, whether it waits or not. -/
theorem attempts_le_of_isTried (h : j.IsWithinBudget) (h' : j.IsTried) :
    j.attempts.toNat ≤ max 1 j.attemptLimit.toNat := by
  by_cases hj : j.isUnclaimed
  · exact Nat.le_of_succ_le (h.attempts_lt hj)
  · exact (h' (Bool.not_eq_true _ ▸ hj)).2

end Job

namespace Document

/-- Every job has as many attempts as it was handed out. -/
def IsTallied (d : Document) (es : List Entry) : Prop :=
  ∀ j ∈ d.jobs, j.attempts.toNat = handouts j.id es

variable {d : Document}

/-- Only a claim hands a job out. -/
theorem handouts_turnDeeds (n : Nat) (d : Document) {t : Turn}
    (ht : ∀ worker types now ids, t ≠ .mutate (.claim worker types) now ids) (job : JobId) :
    handouts job (d.turnDeeds n t) = 0 := by
  cases t with
  | sweep now timeout => rfl
  | mutate m now ids =>
    cases m with
    | claim worker types => exact absurd rfl (ht worker types now ids)
    | heartbeat k worker => by_cases hholds : d.holds k worker <;> simp [turnDeeds, deed?, hholds,
        handouts, Entry.handed?]
    | complete k worker => by_cases hholds : d.holds k worker <;> simp [turnDeeds, deed?, hholds,
        handouts, Entry.handed?]
    | enqueue | registerBroker | renewBroker => rfl

theorem attempts_of_makes {t : Turn} {j j' : Job} (h : Makes t j j')
    (ht : ∀ worker types now ids, t ≠ .mutate (.claim worker types) now ids) :
    j'.id = j.id ∧ j'.attempts = j.attempts := by
  cases h with
  | same => exact ⟨rfl, rfl⟩
  | swept hswept =>
    unfold Job.swept at hswept
    split at hswept
    · split at hswept <;> cases hswept
      exact ⟨rfl, rfl⟩
    · cases hswept
      exact ⟨rfl, rfl⟩
  | claimed => exact absurd rfl (ht _ _ _ _)
  | refreshed =>
    unfold Job.refreshedBy
    split <;> exact ⟨rfl, rfl⟩

/-- The job that a claim hands out is one attempt further, and nothing else changes. -/
theorem IsTallied.claim (h : d.IsWithinBudget) (hd : d.ids.Nodup) {es : List Entry}
    (hes : d.IsTallied es) (n : Nat) (worker : WorkerId) (types : List String) (now : Millis)
    (ids : IdSupply) :
    (d.turn (.mutate (.claim worker types) now ids)).IsTallied
      (es ++ d.turnDeeds n (.mutate (.claim worker types) now ids)) := by
  rcases claimFirst_cases worker now types d.jobs with hnone | ⟨a, j, b, hjobs, hj, hclaim⟩
  · simp only [turn, turnDeeds, deed?, apply, Document.claim, hnone, Option.toList_none,
      List.map_nil, List.append_nil]
    exact hes
  · simp only [turn, turnDeeds, deed?, apply, Document.claim, hclaim, Option.toList_some,
      List.map_cons, List.map_nil, Job.toClaimed]
    have hids : (j.id :: (a ++ b).map (·.id)).Nodup := by
      rw [Document.ids, hjobs] at hd
      exact (List.perm_middle.map _).nodup_iff.1 hd
    intro k hk
    rw [handouts_append, handouts_hand_cons, handouts_nil, Nat.zero_add]
    rcases List.mem_cons.1 (List.perm_middle.mem_iff.1 hk) with rfl | hk
    · have hmem : j ∈ d.jobs := by simp [hjobs]
      have hid : j.id = (j.claimedBy worker now).id := rfl
      rw [Job.toNat_attempts_claimedBy (h j hmem) hj, hes j hmem, if_pos hid, ← hid]
    · have hmem : k ∈ d.jobs := hjobs ▸ List.perm_middle.mem_iff.2 (List.mem_cons_of_mem j hk)
      have hother : ¬ j.id = k.id := by
        intro hid
        exact (List.nodup_cons.1 hids).1 (hid ▸ List.mem_map_of_mem hk)
      rw [if_neg hother, Nat.add_zero]
      exact hes k hmem

theorem IsTallied.turn (h : d.IsWithinBudget) (hd : d.ids.Nodup) {es : List Entry}
    (hes : d.IsTallied es) (n : Nat) {t : Turn} (hnew : ∀ j ∈ t.created, ¬ ∃ e ∈ es, e.hands j.id) :
    (d.turn t).IsTallied (es ++ d.turnDeeds n t) := by
  by_cases ht : ∃ worker types now ids, t = .mutate (.claim worker types) now ids
  · obtain ⟨worker, types, now, ids, rfl⟩ := ht
    exact hes.claim h hd n worker types now ids
  · have hother worker types now ids : t ≠ .mutate (.claim worker types) now ids :=
      fun heq => ht ⟨worker, types, now, ids, heq⟩
    intro j' hj'
    rw [handouts_append, handouts_turnDeeds n d hother, Nat.add_zero]
    rcases makes_of_mem_turn hj' with hcreated | ⟨j, hj, hmakes⟩
    · have hnone : handouts j'.id es = 0 :=
        handouts_eq_zero_iff.2 fun e he hhands => hnew j' hcreated ⟨e, he, hhands⟩
      obtain ⟨spec, -, id, now, rfl⟩ := exists_ofSpec_of_mem_created hcreated
      rw [hnone]
      rfl
    · obtain ⟨hid, hattempts⟩ := attempts_of_makes hmakes hother
      rw [hid, hattempts]
      exact hes j hj

/-- Every job that is leased was tried within its limit. -/
def IsTried (d : Document) : Prop := ∀ j ∈ d.jobs, j.IsTried

theorem IsTried.turn (h : d.IsWithinBudget) (h' : d.IsTried) (t : Turn) : (d.turn t).IsTried := by
  refine forall_jobs_turn (fun _ _ _ _ => nofun) fun j hj j' hmakes => ?_
  cases hmakes with
  | same => exact h' j hj
  | swept hswept => exact Job.isTried_swept (h' j hj) hswept
  | claimed hunclaimed => exact Job.isTried_claimedBy (h j hj) hunclaimed _ _
  | refreshed => exact Job.isTried_refreshedBy (h' j hj) _ _

/-! ## Runs from an empty queue -/

theorem turnHistory_snoc (n : Nat) (d : Document) (ts : List Turn) (t : Turn) :
    d.turnHistory n (ts ++ [t]) =
      d.turnHistory n ts ++ (d.afterTurns ts).turnDeeds (n + ts.length) t := by
  induction ts generalizing n d with
  | nil =>
    rw [List.nil_append, turnHistory, turnHistory, turnHistory, List.append_nil]
    rfl
  | cons u us ih =>
    rw [List.cons_append, turnHistory, turnHistory, ih, List.append_assoc, List.length_cons,
      Nat.add_right_comm, Nat.add_assoc]
    rfl

theorem enlisted_turnHistory (n : Nat) (d : Document) (ts : List Turn) :
    enlisted (d.turnHistory n ts) = (created ts).map (·.id) := by
  induction ts generalizing n d with
  | nil => rfl
  | cons t ts ih =>
    rw [turnHistory, enlisted, List.flatMap_append, created, List.flatMap_cons, List.map_append]
    exact congrArg₂ _ (enlisted_turnDeeds n d t) (ih _ _)

theorem isTried_ofTurns (ts : List Turn) : (ofTurns ts).IsTried := by
  induction ts using List.reverseRecOn with
  | nil => exact List.forall_mem_nil _
  | append_singleton ts t ih =>
    rw [ofTurns_snoc]
    exact ih.turn (isWithinBudget_ofTurns ts) t

theorem turnDeeds_cases (n : Nat) (d : Document) (t : Turn) :
    d.turnDeeds n t = [] ∨ ∃ deed, d.turnDeeds n t = [⟨n, deed⟩] := by
  cases t with
  | sweep now timeout => exact .inr ⟨_, rfl⟩
  | mutate m now ids =>
    rw [turnDeeds]
    cases d.deed? m now ids with
    | none => exact .inl rfl
    | some deed => exact .inr ⟨deed, rfl⟩

theorem exists_mem_of_standing {d : Document} {job : JobId} {lease : Lease}
    (h : d.standing job = .leased lease) :
    ∃ j ∈ d.jobs, j.id = job ∧ j.status = .inProgress lease := by
  rw [standing] at h
  cases hfind : d.job? job with
  | none =>
    rw [hfind] at h
    cases h
  | some j =>
    refine ⟨j, List.mem_of_find?_eq_some hfind, ?_, ?_⟩
    · exact beq_iff_eq.1 (List.find?_some (p := fun j : Job => j.id == job) hfind)
    · rw [hfind, Standing.of] at h
      split at h
      · cases h
      next hstatus =>
        cases h
        exact hstatus

section Fresh

variable {ts : List Turn} (h : ((created ts).map (·.id)).Nodup)

include h

/-- A job that has not come yet was not handed out. -/
theorem not_hands_of_fresh {job : JobId} (hjob : job ∉ (created ts).map (·.id)) :
    ∀ e ∈ empty.turnHistory 0 ts, ¬ e.hands job := by
  rw [← enlisted_turnHistory 0 empty] at hjob
  exact ((leads_ofTurns h job).of_absent hjob).2

theorem attemptLimit_ofTurns {j k : Job} (hj : j ∈ created ts) (hk : k ∈ (ofTurns ts).jobs)
    (hid : k.id = j.id) : k.attemptLimit = j.attemptLimit := by
  obtain ⟨l, hl, hbecomes⟩ := (stemFrom_ofTurns ts).of_mem hk
  obtain rfl : l = j := List.inj_on_of_nodup_map h hl hj (hbecomes.id.symm.trans hid)
  rw [Job.attemptLimit, Job.attemptLimit, hbecomes.maxAttempts]

end Fresh

theorem isTallied_ofTurns {ts : List Turn} (h : ((created ts).map (·.id)).Nodup) :
    (ofTurns ts).IsTallied (empty.turnHistory 0 ts) := by
  induction ts using List.reverseRecOn with
  | nil => exact List.forall_mem_nil _
  | append_singleton ts t ih =>
    rw [created_snoc, List.map_append] at h
    rw [ofTurns_snoc, turnHistory_snoc]
    have hts := h.of_append_left
    refine (ih hts).turn (isWithinBudget_ofTurns ts) (distinct_ofTurns hts) _ ?_
    rintro j hj ⟨e, he, hhands⟩
    refine not_hands_of_fresh hts ?_ e he hhands
    exact fun hold => List.disjoint_of_nodup_append h hold (List.mem_map_of_mem hj)

/-- No job is handed out more often than its limit allows, whatever became of it. -/
theorem handouts_le {ts : List Turn} (h : ((created ts).map (·.id)).Nodup) {j : Job}
    (hj : j ∈ created ts) :
    handouts j.id (empty.turnHistory 0 ts) ≤ max 1 j.attemptLimit.toNat := by
  induction ts using List.reverseRecOn with
  | nil => cases hj
  | append_singleton ts t ih =>
    have hts := h
    rw [created_snoc, List.map_append] at hts
    by_cases hzero : handouts j.id ((ofTurns ts).turnDeeds (0 + ts.length) t) = 0
    · have hsame : handouts j.id (empty.turnHistory 0 (ts ++ [t])) =
          handouts j.id (empty.turnHistory 0 ts) := by
        rw [turnHistory_snoc, handouts_append]
        exact (congrArg (_ + ·) hzero).trans (Nat.add_zero _)
      rw [hsame]
      rw [created_snoc] at hj
      rcases List.mem_append.1 hj with hold | hnew
      · exact ih hts.of_append_left hold
      · have hfresh : j.id ∉ (created ts).map (·.id) := fun hold =>
          List.disjoint_of_nodup_append hts hold (List.mem_map_of_mem hnew)
        rw [handouts_eq_zero_iff.2 (not_hands_of_fresh hts.of_append_left hfresh)]
        exact Nat.zero_le _
    -- The job was handed out just now, so it is there, and its attempts are counted.
    · rw [handouts_eq_zero_iff] at hzero
      rcases turnDeeds_cases (0 + ts.length) (ofTurns ts) t with hnone | ⟨deed, hdeed⟩
      · rw [hnone] at hzero
        exact absurd (List.forall_mem_nil _) hzero
      · rw [hdeed, List.forall_mem_singleton, not_not] at hzero
        have hleads := leads_ofTurns h j.id
        rw [turnHistory_snoc] at hleads
        obtain ⟨lease, hlease⟩ := (hdeed ▸ hleads).leased_of_hand hzero
        obtain ⟨k, hk, hid, -⟩ := exists_mem_of_standing hlease
        rw [← attemptLimit_ofTurns h hj hk hid, ← hid, ← isTallied_ofTurns h k hk]
        exact Job.attempts_le_of_isTried (isWithinBudget_ofTurns _ k hk) (isTried_ofTurns _ k hk)

end Document

/-! ## The budget of every run -/

/-- What holds of the attempts of jobs in every run of turns. -/
structure Tallies (ts : List Turn) : Prop where
  /-- The attempts of a job are the claims that returned it. -/
  counted : ∀ j ∈ (Document.ofTurns ts).jobs,
    j.attempts.toNat = handouts j.id (Document.empty.turnHistory 0 ts)
  waiting : ∀ j ∈ (Document.ofTurns ts).jobs, j.isUnclaimed →
    j.attempts = 0 ∨ j.attempts < j.attemptLimit
  leased : ∀ j ∈ (Document.ofTurns ts).jobs, ¬ j.isUnclaimed →
    1 ≤ j.attempts.toNat ∧ j.attempts.toNat ≤ max 1 j.attemptLimit.toNat
  /-- So the next claim can be counted. -/
  room : ∀ j ∈ (Document.ofTurns ts).jobs, j.isUnclaimed → j.attempts.toNat + 1 < UInt32.size
  /-- Whatever became of it, a job was not handed out more often than its limit allows. -/
  bounded : ∀ j ∈ created ts,
    handouts j.id (Document.empty.turnHistory 0 ts) ≤ max 1 j.attemptLimit.toNat
  /-- The first sweep that finds the lease of a claim stale gives the job back with as many attempts
  as there were claims up to this one, or drops it if these are as many as it may have. -/
  lapsed {earlier now timeout later j n worker at' before after}
    (h : ts = earlier ++ .sweep now timeout :: later) (hj : j ∈ created ts)
    (hclaim : Document.empty.turnHistory 0 earlier =
      before ++ ⟨n, .hand j.id worker at'⟩ :: after)
    (hfirst : ¬ Lapses j.id at' after) (hopen : ∀ e ∈ after, e.deed ≠ .complete j.id worker)
    (hpast : now.isPast (lastHeard j.id at' after) timeout) :
    if handouts j.id before + 1 < j.attemptLimit.toNat then
      ∃ j' ∈ (Document.ofTurns (earlier ++ [.sweep now timeout])).jobs,
        j.Becomes j' ∧ j'.isUnclaimed ∧ j'.attempts.toNat = handouts j.id before + 1
    else j.id ∉ (Document.ofTurns (earlier ++ [.sweep now timeout])).ids

namespace Document

/-- A job whose latest lease nobody ended is still with its holder. -/
theorem exists_leased_of_hand {ts : List Turn} (h : ((created ts).map (·.id)).Nodup) {job : JobId}
    {n : Nat} {worker : WorkerId} {at' : Millis} {before after : List Entry}
    (hclaim : empty.turnHistory 0 ts = before ++ ⟨n, .hand job worker at'⟩ :: after)
    (hfirst : ¬ Lapses job at' after) (hopen : ∀ e ∈ after, e.deed ≠ .complete job worker) :
    (∀ e ∈ after, ¬ e.hands job) ∧ ∃ j ∈ (ofTurns ts).jobs, j.id = job ∧
      j.status = .inProgress ⟨worker, lastHeard job at' after⟩ := by
  have hids : (empty.ids ++ enlisted (empty.turnHistory 0 ts)).Nodup := by
    rw [enlisted_turnHistory]
    exact h
  have hleads := leads_ofTurns h job
  rw [hclaim] at hids hleads
  obtain ⟨s, hbefore, hhand⟩ := hleads.of_append
  obtain ⟨rfl, hlease⟩ := hhand.of_hand
  have hnew := not_enlisted_of_hand hids hbefore nofun
  obtain ⟨hhands, hend⟩ := (hlease.fate hnew).kept_of_not_lapses hfirst
  rcases hend with ⟨e, he, hdone⟩ | hstanding
  · exact absurd hdone (hopen e he)
  · exact ⟨hhands, exists_mem_of_standing hstanding⟩

/-- A sweep gives a stale job back, unless its attempts are used up. -/
theorem sweep_of_isStale {d : Document} (hd : d.ids.Nodup) {j : Job} (hj : j ∈ d.jobs)
    {now timeout : Millis} (hstale : j.isStale now timeout) :
    if j.attempts.toNat < j.attemptLimit.toNat then
      { j with status := .unclaimed } ∈ (d.sweep now timeout).jobs
    else j.id ∉ (d.sweep now timeout).ids := by
  have hlimit : j.attemptLimit ≤ j.attempts ↔ ¬ j.attempts.toNat < j.attemptLimit.toNat := by
    rw [UInt32.le_iff_toNat_le, Nat.not_lt]
  split
  next hlt =>
    refine List.mem_filterMap.2 ⟨j, hj, ?_⟩
    rw [Job.swept, if_pos hstale, if_neg fun hspent => hlimit.1 hspent hlt]
  next hspent =>
    intro hid
    obtain ⟨j', hj', hid⟩ := List.mem_map.1 hid
    obtain ⟨k, hk, hswept⟩ := List.mem_filterMap.1 hj'
    obtain rfl : k = j := List.inj_on_of_nodup_map hd hk hj ((id_of_swept hswept).symm.trans hid)
    rw [Job.swept_eq_none_iff.2 ⟨hstale, hlimit.2 hspent⟩] at hswept
    cases hswept

theorem lapsed_ofTurns {earlier later : List Turn} {now timeout : Millis}
    (h : ((created (earlier ++ .sweep now timeout :: later)).map (·.id)).Nodup) {j : Job}
    (hj : j ∈ created (earlier ++ .sweep now timeout :: later)) {n : Nat} {worker : WorkerId}
    {at' : Millis} {before after : List Entry}
    (hclaim : empty.turnHistory 0 earlier = before ++ ⟨n, .hand j.id worker at'⟩ :: after)
    (hfirst : ¬ Lapses j.id at' after) (hopen : ∀ e ∈ after, e.deed ≠ .complete j.id worker)
    (hpast : now.isPast (lastHeard j.id at' after) timeout) :
    if handouts j.id before + 1 < j.attemptLimit.toNat then
      ∃ j' ∈ (ofTurns (earlier ++ [.sweep now timeout])).jobs,
        j.Becomes j' ∧ j'.isUnclaimed ∧ j'.attempts.toNat = handouts j.id before + 1
    else j.id ∉ (ofTurns (earlier ++ [.sweep now timeout])).ids := by
  have hsplit : created (earlier ++ .sweep now timeout :: later) =
      created earlier ++ created (.sweep now timeout :: later) := List.flatMap_append
  have hearlier : ((created earlier).map (·.id)).Nodup := by
    rw [hsplit, List.map_append] at h
    exact h.of_append_left
  obtain ⟨hhands, k, hk, hid, hstatus⟩ := exists_leased_of_hand hearlier hclaim hfirst hopen
  have hbecomes : j.Becomes k := by
    obtain ⟨l, hl, hbecomes⟩ := (stemFrom_ofTurns earlier).of_mem hk
    have hmem := hsplit ▸ List.mem_append_left (created (.sweep now timeout :: later)) hl
    obtain rfl : l = j := List.inj_on_of_nodup_map h hmem hj (hbecomes.id.symm.trans hid)
    exact hbecomes
  have hcount : k.attempts.toNat = handouts j.id before + 1 := by
    rw [isTallied_ofTurns hearlier k hk, hclaim, hid, handouts_append, handouts_hand_cons,
      handouts_eq_zero_iff.2 hhands, if_pos rfl]
  have hlimit : k.attemptLimit = j.attemptLimit := by
    rw [Job.attemptLimit, Job.attemptLimit, hbecomes.maxAttempts]
  have hstale : k.isStale now timeout := by
    rw [Job.isStale, Job.lease?, hstatus]
    exact hpast
  have hsweep := sweep_of_isStale (distinct_ofTurns hearlier) hk hstale
  rw [hcount, hlimit] at hsweep
  rw [ofTurns_snoc]
  split at hsweep
  next hleft =>
    rw [if_pos hleft]
    exact ⟨_, hsweep, hbecomes.trans ⟨rfl, rfl, rfl, rfl, rfl, UInt32.le_refl _⟩, rfl, hcount⟩
  next hspent =>
    rw [if_neg hspent, ← hid]
    exact hsweep

/-- **No job is tried more often than its limit allows**, and its attempts say how often it was, in
any run of sweeps and mutations from an empty queue in which no id is drawn twice. -/
theorem tallies_of_fresh (ts : List Turn) (h : ((created ts).map (·.id)).Nodup) : Tallies ts where
  counted := isTallied_ofTurns h
  waiting := isWithinBudget_ofTurns ts
  leased := fun j hj hleased => isTried_ofTurns ts j hj (Bool.not_eq_true _ ▸ hleased)
  room := by
    intro j hj hunclaimed
    exact Nat.lt_of_le_of_lt ((isWithinBudget_ofTurns ts j hj).attempts_lt hunclaimed)
      j.max_attemptLimit_lt
  bounded := fun _ hj => handouts_le h hj
  lapsed := by
    intro earlier now timeout later j n worker at' before after hts hj hclaim hfirst hopen hpast
    subst hts
    exact lapsed_ofTurns h hj hclaim hfirst hopen hpast

/-- A job is handed out twice, and then its two attempts are used up; another may be tried only
once, and is, although its limit is zero. -/
def retries : List Turn :=
  let ids : IdSupply := ⟨toString, 0⟩
  [.mutate (.enqueue [⟨.null, none, some 2⟩, ⟨.null, none, some 0⟩]) 0 ids,
    .mutate (.claim "first" []) 10 ids, .mutate (.claim "second" []) 20 ids,
    .mutate (.heartbeat "0" "first") 500 ids, .sweep 1100 1000, .sweep 1501 1000,
    .mutate (.claim "third" []) 1600 ids, .sweep 2601 1000]

theorem tallies_retries :
    ((created retries).map (·.id)).Nodup ∧
      (created retries).map (handouts ·.id (empty.turnHistory 0 retries)) = [2, 1] ∧
      (ofTurns (retries.take 6)).ids = ["0"] ∧ (ofTurns retries).ids = [] ∧ Tallies retries :=
  ⟨by decide, by decide, by decide, by decide, tallies_of_fresh retries (by decide)⟩

end Document

end LeaseQueue
