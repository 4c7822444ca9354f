import LeaseQueue.Proofs.Queue.Turns
import Mathlib.Data.List.Induction

/-!
# No job is lost

Whatever sweeps and mutations follow each other, from an empty queue on: every job that was ever
enqueued is present, was completed or was dropped, and is only one of these.

  `((created ts).map (·.id)).Nodup → Conserves ts`

A job is completed only by the worker that was given it last and has not lost it to a sweep since
(`Retains`), and it is dropped only by a sweep that finds its lease stale and its attempts used up.
-/

namespace LeaseQueue

/-- The worker was given the job last, and no sweep has taken it back since. -/
def Retains (job : JobId) (worker : WorkerId) (es : List Entry) : Prop :=
  ∃ earlier n now later, es = earlier ++ ⟨n, .hand job worker now⟩ :: later ∧
    (∀ e ∈ later, ¬ e.hands job) ∧ ¬ Lapses job now later

theorem lastHeard_snoc (job : JobId) (since : Millis) (es : List Entry) (e : Entry) :
    lastHeard job since (es ++ [e]) = e.heard job (lastHeard job since es) := List.foldl_concat ..

/-- One entry more, and the lease has not lapsed. -/
theorem Lapses.of_snoc {job : JobId} {since : Millis} {es : List Entry} {e : Entry}
    (h : Lapses job since (es ++ [e])) : Lapses job since es ∨
      ∃ now timeout, e.deed = .sweep now timeout ∧ now.isPast (lastHeard job since es) timeout := by
  obtain ⟨a, n, now, timeout, b, hes, hpast⟩ := h
  rcases List.eq_nil_or_concat b with rfl | ⟨b, f, rfl⟩
  · obtain ⟨rfl, hlast⟩ := List.append_inj' hes rfl
    obtain rfl := List.singleton_inj.1 hlast
    exact .inr ⟨now, timeout, rfl, hpast⟩
  · rw [List.concat_eq_append, ← List.cons_append, ← List.append_assoc] at hes
    obtain ⟨rfl, -⟩ := List.append_inj' hes rfl
    exact .inl ⟨a, n, now, timeout, b, rfl, hpast⟩

/-- A lease goes back to the claim that gave it, and was renewed by nobody else. -/
theorem Leads.retains {job : JobId} {es : List Entry} {lease : Lease}
    (h : Leads job es .absent (.leased lease)) :
    ∃ earlier n now later, es = earlier ++ ⟨n, .hand job lease.worker now⟩ :: later ∧
      (∀ e ∈ later, ¬ e.hands job) ∧ ¬ Lapses job now later ∧
      lease.heartbeat = lastHeard job now later := by
  induction es using List.reverseRecOn generalizing lease with
  | nil => cases h
  | append_singleton es e ih =>
    obtain ⟨n, deed⟩ := e
    obtain ⟨s, hes, hlast⟩ := h.of_append
    cases hlast with
    | cons hm hnil =>
      cases hnil
      have hextend {lease' : Lease} (hs : s = .leased lease') (hworker : lease'.worker = lease.worker)
          (hhands : ¬ Entry.hands job ⟨n, deed⟩)
          (hsweep : ∀ now timeout, deed = .sweep now timeout → ¬ now.isPast lease'.heartbeat timeout)
          (hheard : lease.heartbeat = Entry.heard job lease'.heartbeat ⟨n, deed⟩) :
          ∃ earlier k now later, es ++ [⟨n, deed⟩] =
            earlier ++ ⟨k, .hand job lease.worker now⟩ :: later ∧
            (∀ e ∈ later, ¬ e.hands job) ∧ ¬ Lapses job now later ∧
            lease.heartbeat = lastHeard job now later := by
        subst hs
        obtain ⟨earlier, k, now, later, rfl, hnone, hkept, hsince⟩ := ih hes
        refine ⟨earlier, k, now, later ++ [⟨n, deed⟩], ?_, ?_, ?_, ?_⟩
        · rw [← hworker, List.append_assoc, List.cons_append]
        · intro e he
          rcases List.mem_append.1 he with he | he
          · exact hnone e he
          · exact List.mem_singleton.1 he ▸ hhands
        · intro hlapses
          rcases hlapses.of_snoc with hearlier | ⟨at', timeout, hdeed, hpast⟩
          · exact hkept hearlier
          · rw [← hsince] at hpast
            exact hsweep at' timeout hdeed hpast
        · rw [lastHeard_snoc, ← hsince]
          exact hheard
      cases hm with
      | spared hspared =>
        refine hextend rfl rfl (by rintro ⟨_, _, ⟨⟩⟩) ?_ rfl
        intro at' timeout' hdeed
        cases hdeed
        exact hspared lease rfl
      | handed => exact ⟨es, n, _, [], rfl, List.forall_mem_nil _, by
          rintro ⟨a, _, _, _, _, hnil, -⟩
          exact List.append_ne_nil_of_right_ne_nil a (List.cons_ne_nil _ _) hnil.symm, rfl⟩
      | @renewed worker now since =>
        exact hextend rfl rfl (by rintro ⟨_, _, ⟨⟩⟩) nofun (by simp [Entry.heard])
      | unlisted | otherCompleted => exact hextend rfl rfl (by rintro ⟨_, _, ⟨⟩⟩) nofun rfl
      | otherHanded hk =>
        refine hextend rfl rfl ?_ nofun (if_neg hk).symm
        rintro ⟨_, _, heq⟩
        exact hk (Deed.hand.inj heq).1
      | otherRenewed hk =>
        exact hextend rfl rfl (by rintro ⟨_, _, ⟨⟩⟩) nofun (if_neg hk).symm

/-- How a job leaves the queue by a turn, after what was done before. -/
inductive Departs (es : List Entry) (j : Job) : Turn → Prop where
  | completed {worker now ids} (hretains : Retains j.id worker es) :
    Departs es j (.mutate (.complete j.id worker) now ids)
  | dropped {now timeout} (hstale : j.isStale now timeout)
    (hspent : j.attemptLimit ≤ j.attempts) : Departs es j (.sweep now timeout)

/-! ## Runs from an empty queue -/

/-- The document that a run makes of an empty one. -/
def Document.ofTurns (ts : List Turn) : Document := Document.empty.afterTurns ts

def completedIn (ts : List Turn) : List Job := Document.empty.along Document.completed ts

def droppedIn (ts : List Turn) : List Job := Document.empty.along Document.dropped ts

/-- What holds of every run of turns. -/
structure Conserves (ts : List Turn) : Prop where
  distinct : (Document.ofTurns ts).ids.Nodup
  inOrder : (Document.ofTurns ts).ids.Sublist ((created ts).map (·.id))
  /-- Every job that came is present, was completed or was dropped. -/
  accounted : ((Document.ofTurns ts).ids ++ ((completedIn ts).map (·.id) ++
    (droppedIn ts).map (·.id))).Perm ((created ts).map (·.id))
  counted : (Document.ofTurns ts).completedTotal = UInt64.ofNat (completedIn ts).length
  /-- So the numbers add up, as long as the counter can hold its own. -/
  balance : (created ts).length < UInt64.size →
    (created ts).length = (Document.ofTurns ts).jobs.length +
      (Document.ofTurns ts).completedTotal.toNat + (droppedIn ts).length
  /-- While a job is present, only its lease changes, and its attempts grow. -/
  constant {earlier later j j'} (h : ts = earlier ++ later)
    (hj : j ∈ (Document.ofTurns earlier).jobs) (hj' : j' ∈ (Document.ofTurns ts).jobs)
    (hid : j'.id = j.id) : j.Becomes j'
  leaving {earlier t later j} (h : ts = earlier ++ t :: later)
    (hj : j ∈ (Document.ofTurns earlier).jobs)
    (hgone : j.id ∉ (Document.ofTurns (earlier ++ [t])).ids) :
    Departs (Document.empty.turnHistory 0 earlier) j t
  /-- Jobs and brokers do not touch each other. -/
  aboutJobs {earlier t later} (h : ts = earlier ++ t :: later) (ht : t.IsAboutJobs) :
    (Document.ofTurns (earlier ++ [t])).broker = (Document.ofTurns earlier).broker ∧
      (Document.ofTurns (earlier ++ [t])).brokerHeartbeat =
        (Document.ofTurns earlier).brokerHeartbeat
  aboutBrokers {earlier t later} (h : ts = earlier ++ t :: later) (ht : ¬ t.IsAboutJobs) :
    (Document.ofTurns (earlier ++ [t])).jobs = (Document.ofTurns earlier).jobs ∧
      (Document.ofTurns (earlier ++ [t])).completedTotal =
        (Document.ofTurns earlier).completedTotal

namespace Document

theorem ofTurns_snoc (ts : List Turn) (t : Turn) : ofTurns (ts ++ [t]) = (ofTurns ts).turn t :=
  afterTurns_snoc empty ts t

theorem completedIn_snoc (ts : List Turn) (t : Turn) :
    completedIn (ts ++ [t]) = completedIn ts ++ (ofTurns ts).completed t :=
  along_snoc completed empty ts t

theorem droppedIn_snoc (ts : List Turn) (t : Turn) :
    droppedIn (ts ++ [t]) = droppedIn ts ++ (ofTurns ts).dropped t := along_snoc dropped empty ts t

theorem created_snoc (ts : List Turn) (t : Turn) : created (ts ++ [t]) = created ts ++ t.created := by
  rw [created, List.flatMap_append, List.flatMap_singleton]
  rfl

theorem isWithinBudget_empty : empty.IsWithinBudget := List.forall_mem_nil _

theorem isWithinBudget_ofTurns (ts : List Turn) : (ofTurns ts).IsWithinBudget := by
  induction ts using List.reverseRecOn with
  | nil => exact isWithinBudget_empty
  | append_singleton ts t ih =>
    rw [ofTurns_snoc]
    exact ih.turn t

/-- The jobs after more turns are those before them and those that they enqueue, or some of them. -/
theorem stemFrom_afterTurns {d : Document} (h : d.IsWithinBudget) (ts : List Turn) :
    StemFrom (d.afterTurns ts).jobs (d.jobs ++ created ts) := by
  induction ts generalizing d with
  | nil =>
    rw [created, List.flatMap_nil, List.append_nil]
    exact .refl d.jobs
  | cons t ts ih =>
    rw [created, List.flatMap_cons, ← List.append_assoc]
    exact (ih (h.turn t)).trans ((stemFrom_turn h t).append_right (created ts))

theorem stemFrom_ofTurns (ts : List Turn) : StemFrom (ofTurns ts).jobs (created ts) :=
  stemFrom_afterTurns isWithinBudget_empty ts

theorem accounted_ofTurns (ts : List Turn) :
    ((ofTurns ts).ids ++ ((completedIn ts).map (·.id) ++ (droppedIn ts).map (·.id))).Perm
      ((created ts).map (·.id)) := by
  induction ts using List.reverseRecOn with
  | nil => exact .refl _
  | append_singleton ts t ih =>
    have hturn := ids_turn_perm (ofTurns ts) t
    rw [ofTurns_snoc, completedIn_snoc, droppedIn_snoc, created_snoc]
    rw [List.perm_iff_count] at ih hturn ⊢
    intro id
    have hbefore := ih id
    have hnow := hturn id
    simp only [List.map_append, List.count_append] at hbefore hnow ⊢
    omega

theorem counted_ofTurns (ts : List Turn) :
    (ofTurns ts).completedTotal = UInt64.ofNat (completedIn ts).length := by
  induction ts using List.reverseRecOn with
  | nil => rfl
  | append_singleton ts t ih =>
    rw [ofTurns_snoc, completedTotal_turn, ih, completedIn_snoc, List.length_append,
      UInt64.ofNat_add]

theorem balance_ofTurns {ts : List Turn} (hsize : (created ts).length < UInt64.size) :
    (created ts).length = (ofTurns ts).jobs.length + (ofTurns ts).completedTotal.toNat +
      (droppedIn ts).length := by
  have hlength := (accounted_ofTurns ts).length_eq
  simp only [List.length_append, List.length_map, ids] at hlength
  have hcompleted : (ofTurns ts).completedTotal.toNat = (completedIn ts).length := by
    rw [counted_ofTurns, UInt64.toNat_ofNat']
    exact Nat.mod_eq_of_lt (by rw [UInt64.size] at hsize; omega)
  omega

theorem standing_of_mem {d : Document} (hd : d.ids.Nodup) {j : Job} (hj : j ∈ d.jobs) :
    d.standing j.id = .of (some j) := by
  obtain ⟨a, b, hjobs⟩ := List.append_of_mem hj
  exact standing_self hjobs hd

section Fresh

variable {ts : List Turn} (h : ((created ts).map (·.id)).Nodup)

include h

theorem distinct_ofTurns : (ofTurns ts).ids.Nodup :=
  ((accounted_ofTurns ts).nodup_iff.2 h).of_append_left

/-- What was done to a job follows its way from nowhere to where it stands. -/
theorem leads_ofTurns (job : JobId) :
    Leads job (empty.turnHistory 0 ts) .absent ((ofTurns ts).standing job) := by
  have hids : (empty.ids ++ (created ts).map (·.id)).Nodup := h
  exact (accounts_turnHistory 0 ts hids).leads job

theorem constant_ofTurns {earlier later : List Turn} (hts : ts = earlier ++ later) {j j' : Job}
    (hj : j ∈ (ofTurns earlier).jobs) (hj' : j' ∈ (ofTurns ts).jobs) (hid : j'.id = j.id) :
    j.Becomes j' := by
  subst hts
  rw [created, List.flatMap_append, List.map_append] at h
  have hids := h.sublist ((stemFrom_ofTurns earlier).ids_sublist.append_right _)
  have hstem := stemFrom_afterTurns (isWithinBudget_ofTurns earlier) later
  rw [ofTurns, afterTurns_append] at hj'
  obtain ⟨k, hk, hbecomes⟩ := hstem.of_mem hj'
  rw [← List.map_append] at hids
  have hsame : k = j := by
    refine List.inj_on_of_nodup_map hids hk (List.mem_append_left _ hj) ?_
    rw [← hbecomes.id, hid]
  exact hsame ▸ hbecomes

/-- A job that leaves by a turn is completed or dropped by it. -/
theorem departs_ofTurns {t : Turn} {j : Job} (hj : j ∈ (ofTurns ts).jobs)
    (hgone : j.id ∉ (ofTurns (ts ++ [t])).ids) : Departs (empty.turnHistory 0 ts) j t := by
  have hd := distinct_ofTurns h
  have hsame {k : Job} (hk : k ∈ (ofTurns ts).jobs) (hid : k.id = j.id) : k = j :=
    List.inj_on_of_nodup_map hd hk hj hid
  have hmem : j.id ∈ (ofTurns ts).ids ++ t.created.map (·.id) :=
    List.mem_append_left _ (List.mem_map_of_mem hj)
  rw [ofTurns_snoc] at hgone
  rcases List.mem_append.1 ((ids_turn_perm (ofTurns ts) t).mem_iff.2 hmem) with hstays | hleaves
  · exact absurd hstays hgone
  rcases List.mem_append.1 hleaves with hdone | hdropped
  · obtain ⟨k, hk, hid⟩ := List.mem_map.1 hdone
    cases t with
    | sweep => cases hk
    | mutate m now ids =>
      cases m with
      | complete job worker =>
        have hfind := Option.mem_toList.1 hk
        have hmatch := List.find?_some hfind
        rw [Bool.and_eq_true, beq_iff_eq] at hmatch
        obtain rfl := hsame (List.mem_of_find?_eq_some hfind) hid
        obtain ⟨rfl, hheld⟩ := hmatch
        obtain ⟨since, hstatus⟩ := lease?_eq_some_of_isHeldBy hheld
        have hleads := leads_ofTurns h k.id
        rw [standing_of_mem hd hj, Standing.of, hstatus] at hleads
        obtain ⟨earlier, n, at', later, hes, hnone, hkept, -⟩ := hleads.retains
        exact .completed ⟨earlier, n, at', later, hes, hnone, hkept⟩
      | enqueue | claim | heartbeat | registerBroker | renewBroker => cases hk
  · obtain ⟨k, hk, hid⟩ := List.mem_map.1 hdropped
    cases t with
    | mutate => cases hk
    | sweep now timeout =>
      obtain ⟨hin, hlost⟩ := List.mem_filter.1 hk
      obtain rfl := hsame hin hid
      rw [Bool.and_eq_true, decide_eq_true_eq] at hlost
      exact .dropped hlost.1 hlost.2

end Fresh

/-- **No job is lost, doubled or reordered**, in any run of sweeps and mutations from an empty
queue in which no id is drawn twice. -/
theorem conserves_of_fresh (ts : List Turn) (h : ((created ts).map (·.id)).Nodup) :
    Conserves ts where
  distinct := distinct_ofTurns h
  inOrder := (stemFrom_ofTurns ts).ids_sublist
  accounted := accounted_ofTurns ts
  counted := counted_ofTurns ts
  balance := balance_ofTurns
  constant := by
    intro earlier later j j' hts hj hj' hid
    exact constant_ofTurns h hts hj hj' hid
  leaving := by
    intro earlier t later j hts hj hgone
    rw [hts, created, List.flatMap_append, List.map_append] at h
    exact departs_ofTurns h.of_append_left hj hgone
  aboutJobs := by
    intro earlier t later _ ht
    rw [ofTurns_snoc]
    exact turn_aboutJobs ht
  aboutBrokers := by
    intro earlier t later _ ht
    rw [ofTurns_snoc]
    exact turn_not_aboutJobs ht

/-- Of three jobs one is completed, one is given up after its only attempt, and one is left. -/
def errands : List Turn :=
  let ids (n : Nat) : IdSupply := ⟨toString, n⟩
  [.mutate (.enqueue [⟨.null, none, none⟩, ⟨.null, none, some 1⟩, ⟨.null, none, none⟩]) 0 (ids 0),
    .mutate (.claim "first" []) 10 (ids 3), .mutate (.claim "second" []) 20 (ids 3),
    .mutate (.registerBroker "broker" 30) 30 (ids 3), .mutate (.complete "1" "first") 40 (ids 3),
    .mutate (.complete "0" "first") 50 (ids 3), .sweep 2000 1000]

theorem conserves_errands :
    ((created errands).map (·.id)).Nodup ∧ (ofTurns errands).ids = ["2"] ∧
      (completedIn errands).map (·.id) = ["0"] ∧ (droppedIn errands).map (·.id) = ["1"] ∧
      Conserves errands :=
  ⟨by decide, by decide, by decide, by decide, conserves_of_fresh errands (by decide)⟩

end Document

end LeaseQueue
