import LeaseQueue.Proofs.Queue.History

/-!
# Leases

One worker at a time has a job, and nobody else gets it while that worker is heard of.

  `(d.ids ++ enlisted (d.history 0 ps)).Nodup → d.Exclusive ps`

Followed from where a job is handed out, a history comes to one of three ends (`Fate`): a sweep
finds the lease stale, the holder completes the job, or the job is still with its holder.
-/

namespace LeaseQueue

/-! ## What becomes of a lease -/

/-- The holder of the job, heard of at `since`, is silent for too long at one of the sweeps. -/
def Lapses (job : JobId) (since : Millis) (es : List Entry) : Prop :=
  ∃ a n now timeout b, es = a ++ ⟨n, .sweep now timeout⟩ :: b ∧
    now.isPast (lastHeard job since a) timeout

/-- How a lease that was last renewed at `since` fares. -/
inductive Fate (job : JobId) (worker : WorkerId) (since : Millis) (es : List Entry)
    (s : Standing) : Prop where
  | lapsed {a n now timeout b s'} (hes : es = a ++ ⟨n, .sweep now timeout⟩ :: b)
    (hpast : now.isPast (lastHeard job since a) timeout) (hfree : ∀ lease, s' ≠ .leased lease)
    (hs : Leads job b s' s)
  | completed (hhands : ∀ e ∈ es, ¬ e.hands job) (hdone : ∃ e ∈ es, e.deed = .complete job worker)
    (hs : s = .absent)
  | kept (hhands : ∀ e ∈ es, ¬ e.hands job) (hs : s = .leased ⟨worker, lastHeard job since es⟩)

theorem Fate.cons {job : JobId} {worker : WorkerId} {since since' : Millis} {e : Entry}
    {es : List Entry} {s : Standing} (he : ¬ e.hands job) (hsince : e.heard job since = since')
    (h : Fate job worker since' es s) : Fate job worker since (e :: es) s := by
  subst hsince
  cases h with
  | @lapsed a n now timeout b s' hes hpast hfree hs =>
    exact .lapsed (a := e :: a) (congrArg (e :: ·) hes) hpast hfree hs
  | completed hhands hdone hs =>
    obtain ⟨f, hf, hdone⟩ := hdone
    exact .completed (List.forall_mem_cons.2 ⟨he, hhands⟩) ⟨f, List.mem_cons_of_mem _ hf, hdone⟩ hs
  | kept hhands hs => exact .kept (List.forall_mem_cons.2 ⟨he, hhands⟩) hs

/-- A lease that does not lapse stays with its holder until the job is complete. -/
theorem Fate.kept_of_not_lapses {job : JobId} {worker : WorkerId} {since : Millis}
    {es : List Entry} {s : Standing} (h : Fate job worker since es s)
    (hheard : ¬ Lapses job since es) :
    (∀ e ∈ es, ¬ e.hands job) ∧ ((∃ e ∈ es, e.deed = .complete job worker) ∨
      s = .leased ⟨worker, lastHeard job since es⟩) := by
  cases h with
  | @lapsed a n now timeout b s' hes hpast hfree hs =>
    exact absurd ⟨a, n, now, timeout, b, hes, hpast⟩ hheard
  | completed hhands hdone _ => exact ⟨hhands, .inl hdone⟩
  | kept hhands hs => exact ⟨hhands, .inr hs⟩

namespace Leads

variable {job : JobId} {es : List Entry} {s s' : Standing}

/-- A job that is gone, and does not come again, is gone for good. -/
theorem of_absent (h : Leads job es .absent s) (hnew : job ∉ enlisted es) :
    s = .absent ∧ ∀ e ∈ es, ¬ e.hands job := by
  induction es with
  | nil =>
    cases h
    exact ⟨rfl, List.forall_mem_nil _⟩
  | cons e es ih =>
    obtain ⟨n, deed⟩ := e
    rw [enlisted, List.flatMap_cons, List.mem_append, not_or] at hnew
    cases h with
    | cons hm hs =>
      cases hm with
      | enlisted hjob => exact absurd hjob hnew.1
      | spared | unlisted | otherRenewed | otherCompleted =>
        obtain ⟨rfl, hhands⟩ := ih hs hnew.2
        refine ⟨rfl, List.forall_mem_cons.2 ⟨?_, hhands⟩⟩
        rintro ⟨_, _, ⟨⟩⟩
      | otherHanded hk =>
        obtain ⟨rfl, hhands⟩ := ih hs hnew.2
        refine ⟨rfl, List.forall_mem_cons.2 ⟨?_, hhands⟩⟩
        rintro ⟨_, _, heq⟩
        exact hk (Deed.hand.inj heq).1

theorem absent_or_enlisted (h : Leads job es s s') (hs : s' ≠ .absent) :
    s ≠ .absent ∨ job ∈ enlisted es := by
  by_cases hnew : job ∈ enlisted es
  · exact .inr hnew
  · refine .inl ?_
    rintro rfl
    exact hs (h.of_absent hnew).1

/-- Nobody renews a lease that nobody has. -/
theorem not_renewed (h : Leads job es s s') (hfree : ∀ lease, s ≠ .leased lease)
    (hhands : ∀ e ∈ es, ¬ e.hands job) : ∀ e ∈ es, ¬ e.renews job := by
  induction h with
  | nil => exact fun e he => nomatch he
  | @cons e es s s' s'' hm hs ih =>
    obtain ⟨n, deed⟩ := e
    obtain ⟨he, hes⟩ := List.forall_mem_cons.1 hhands
    rw [List.forall_mem_cons]
    cases hm with
    | givenBack | dropped | renewed | completed => exact absurd rfl (hfree _)
    | handed => exact absurd ⟨_, _, rfl⟩ he
    | enlisted => exact ⟨nofun, ih nofun hes⟩
    | spared | unlisted | otherHanded | otherCompleted => exact ⟨nofun, ih hfree hes⟩
    | otherRenewed hk =>
      refine ⟨?_, ih hfree hes⟩
      rintro ⟨_, _, heq⟩
      exact hk (Deed.renew.inj heq).1

theorem fate {worker : WorkerId} {since : Millis} (h : Leads job es (.leased ⟨worker, since⟩) s)
    (hnew : job ∉ enlisted es) : Fate job worker since es s := by
  induction es generalizing since with
  | nil =>
    cases h
    exact .kept (List.forall_mem_nil _) rfl
  | cons e es ih =>
    obtain ⟨n, deed⟩ := e
    rw [enlisted, List.flatMap_cons, List.mem_append, not_or] at hnew
    cases h with
    | cons hm hs =>
      cases hm with
      | spared | unlisted | otherCompleted =>
        refine (ih hs hnew.2).cons ?_ rfl
        rintro ⟨_, _, ⟨⟩⟩
      | givenBack hpast => exact .lapsed (a := []) rfl hpast (fun lease heq => by cases heq) hs
      | dropped hpast => exact .lapsed (a := []) rfl hpast (fun lease heq => by cases heq) hs
      | renewed =>
        refine (ih hs hnew.2).cons ?_ (if_pos rfl)
        rintro ⟨_, _, ⟨⟩⟩
      | completed =>
        obtain ⟨rfl, hhands⟩ := of_absent hs hnew.2
        refine .completed (List.forall_mem_cons.2 ⟨?_, hhands⟩) ⟨_, List.mem_cons_self, rfl⟩ rfl
        rintro ⟨_, _, ⟨⟩⟩
      | otherHanded hk =>
        refine (ih hs hnew.2).cons ?_ (if_neg hk)
        rintro ⟨_, _, heq⟩
        exact hk (Deed.hand.inj heq).1
      | otherRenewed hk =>
        refine (ih hs hnew.2).cons ?_ (if_neg hk)
        rintro ⟨_, _, ⟨⟩⟩

/-- Only a waiting job is handed out. -/
theorem of_hand {n : Nat} {worker : WorkerId} {now : Millis}
    (h : Leads job (⟨n, .hand job worker now⟩ :: es) s s') :
    s = .waiting ∧ Leads job es (.leased ⟨worker, now⟩) s' := by
  cases h with
  | cons hm hs =>
    cases hm with
    | handed => exact ⟨rfl, hs⟩
    | otherHanded hk => exact absurd rfl hk

end Leads

/-! ## One worker at a time -/

namespace Document

/-- What a history says of the leases in it. -/
structure Exclusive (d : Document) (ps : List Pass) : Prop where
  /-- A job is handed out twice only if a sweep in between found the first lease stale. -/
  lapsed {job worker worker' now now' i k earlier between later}
    (h : d.history 0 ps = earlier ++ ⟨i, .hand job worker now⟩ :: between ++
      ⟨k, .hand job worker' now'⟩ :: later)
    (hbetween : ∀ e ∈ between, ¬ e.hands job) :
    ∃ a n at' timeout b, between = a ++ ⟨n, .sweep at' timeout⟩ :: b ∧ i < n ∧ n ≤ k ∧
      at'.isPast (lastHeard job now a) timeout ∧ ∀ e ∈ b, ¬ e.renews job
  /-- A job whose lease does not lapse stays with the worker it was handed to. -/
  kept {job worker now i earlier later}
    (h : d.history 0 ps = earlier ++ ⟨i, .hand job worker now⟩ :: later)
    (hheard : ¬ Lapses job now later) :
    (∀ e ∈ later, ¬ e.hands job) ∧
      ((∃ e ∈ later, e.deed = .complete job worker) ∨
        (d.afterPasses ps).standing job = .leased ⟨worker, lastHeard job now later⟩)
  /-- And so does a job that was leased before. -/
  keptFromStart {job lease} (h : d.standing job = .leased lease)
    (hheard : ¬ Lapses job lease.heartbeat (d.history 0 ps)) :
    (∀ e ∈ d.history 0 ps, ¬ e.hands job) ∧
      ((∃ e ∈ d.history 0 ps, e.deed = .complete job lease.worker) ∨
        (d.afterPasses ps).standing job =
          .leased ⟨lease.worker, lastHeard job lease.heartbeat (d.history 0 ps)⟩)

theorem mem_ids_of_standing {d : Document} {job : JobId} (h : d.standing job ≠ .absent) :
    job ∈ d.ids := by
  by_contra hjob
  exact h (standing_of_find? (find?_id_eq_none.2 hjob))

/-- A job that is handed out was there or came before that, so it does not come after it. -/
theorem not_enlisted_of_hand {d : Document} {job : JobId} {e : Entry} {earlier later : List Entry}
    {s : Standing} (h : (d.ids ++ enlisted (earlier ++ e :: later)).Nodup)
    (hleads : Leads job earlier (d.standing job) s) (hs : s ≠ .absent) : job ∉ enlisted later := by
  rw [enlisted, List.flatMap_append, List.flatMap_cons] at h
  intro hlater
  obtain ⟨-, hnew, hdisjoint⟩ := List.nodup_append.1 h
  obtain ⟨-, -, hearlier⟩ := List.nodup_append.1 hnew
  have hlast := List.mem_append_right e.enlisted hlater
  rcases hleads.absent_or_enlisted hs with hstart | hfirst
  · exact hdisjoint job (mem_ids_of_standing hstart) job (List.mem_append_right _ hlast) rfl
  · exact hearlier job hfirst job hlast rfl

/-- **A lease excludes everyone else until it lapses**, in every run of passes whose ids are
distinct from each other and from those of the jobs that were there. -/
theorem exclusive_of_fresh (d : Document) (ps : List Pass)
    (h : (d.ids ++ enlisted (d.history 0 ps)).Nodup) : d.Exclusive ps := by
  have hleads (job : JobId) := (accounts_history 0 ps h).leads job
  refine ⟨?_, ?_, ?_⟩
  · intro job worker worker' now now' i k earlier between later hsplit hbetween
    have hjob := hleads job
    have hbefore := before_history 0 ps d
    rw [hsplit, List.append_assoc, List.cons_append] at hjob h hbefore
    obtain ⟨s, hearlier, hhand⟩ := hjob.of_append
    obtain ⟨rfl, hlease⟩ := hhand.of_hand
    have hnew := not_enlisted_of_hand h hearlier nofun
    obtain ⟨s, hwhile, hagain⟩ := hlease.of_append
    obtain ⟨rfl, -⟩ := hagain.of_hand
    rw [enlisted, List.flatMap_append, List.mem_append, not_or] at hnew
    obtain ⟨hfirst, hafter⟩ := List.pairwise_cons.1 (List.pairwise_append.1 hbefore).2.1
    obtain ⟨-, -, hsecond⟩ := List.pairwise_append.1 hafter
    cases hwhile.fate hnew.1 with
    | completed _ _ hs => cases hs
    | kept _ hs => cases hs
    | @lapsed a n at' timeout b s hes hpast hfree hs =>
      subst hes
      have hsweep : (⟨n, .sweep at' timeout⟩ : Entry) ∈ a ++ ⟨n, .sweep at' timeout⟩ :: b :=
        List.mem_append_right _ List.mem_cons_self
      refine ⟨a, n, at', timeout, b, rfl, ?_, ?_, hpast, ?_⟩
      · exact (hfirst _ (List.mem_append_left _ hsweep)).2 at' timeout rfl
      · exact (hsecond _ hsweep _ List.mem_cons_self).1
      · exact hs.not_renewed hfree fun e he => hbetween e (List.mem_append_right _ (.tail _ he))
  · intro job worker now i earlier later hsplit hheard
    have hjob := hleads job
    rw [hsplit] at hjob h
    obtain ⟨s, hearlier, hhand⟩ := hjob.of_append
    obtain ⟨rfl, hlease⟩ := hhand.of_hand
    exact (hlease.fate (not_enlisted_of_hand h hearlier nofun)).kept_of_not_lapses hheard
  · intro job lease hlease hheard
    have hjob := hleads job
    rw [hlease] at hjob
    have hnew : job ∉ enlisted (d.history 0 ps) := by
      have hmem : job ∈ d.ids := mem_ids_of_standing fun habsent => by simp [habsent] at hlease
      exact fun hjob => List.disjoint_of_nodup_append h hmem hjob
    exact (hjob.fate hnew).kept_of_not_lapses hheard

/-- The first worker falls silent, and the job goes to the second. -/
def relay : List Pass :=
  let ids : IdSupply := ⟨fun _ => "job", 0⟩
  [⟨0, 1000, [.enqueue [⟨.null, none, none⟩], .claim "first" []], ids⟩,
    ⟨500, 1000, [.heartbeat "job" "first", .claim "second" []], ids⟩,
    ⟨1501, 1000, [.claim "second" []], ids⟩]

theorem exclusive_relay :
    empty.history 0 relay =
        [⟨0, .sweep 0 1000⟩, ⟨0, .enlist ["job"]⟩, ⟨0, .hand "job" "first" 0⟩,
          ⟨1, .sweep 500 1000⟩, ⟨1, .renew "job" "first" 500⟩,
          ⟨2, .sweep 1501 1000⟩, ⟨2, .hand "job" "second" 1501⟩] ∧
      empty.Exclusive relay :=
  ⟨by decide, exclusive_of_fresh empty relay (by decide)⟩

end Document

end LeaseQueue
