import LeaseQueue.Proofs.Cluster.Outcomes
import LeaseQueue.Proofs.Fleet.Basic

/-!
# The course of a candidacy in a fleet

An attempt to be elected goes its way in a fleet as in a cluster.  It looks, puts and is decided,
each once, and between two of these it has the answer of the server.

  `d.Decides i election outcome` comes after `l.Lands i election (.looking now) found`, and unless
  that has decided it, after `m.Lands i election attempt answer` in between
-/

namespace LeaseQueue.Fleet

open Cluster (Caller ProcId)

variable {σ : Type}

/-- The call of an attempt takes effect. -/
structure Lands (server : Store.Server σ) (m : Moment σ) (i : ProcId) (election : Election)
    {a : Store.Access} (attempt : Election.Attempt a) (answer : Store.Answer a) : Prop where
  act : m.act = .move (.land i)
  stands : ∃ failure, m.before.cluster.standing? i = some ⟨election, attempt, .sent failure⟩
  answered : (server.answer m.before.state (attempt.call election)).1 = answer

/-- The attempt is decided. -/
structure Decides (m : Moment σ) (i : ProcId) (election : Election) (outcome : Election.Outcome) :
    Prop where
  act : m.act = .move (.proceed i)
  resolves : m.before.cluster.Resolves i election outcome

inductive StandingStep (server : Store.Server σ) (f : Fleet σ) (act : Act σ) (i : ProcId) :
    Prop where
  | stays (h : (f.step server act).cluster.standing? i = f.cluster.standing? i)
  | begins {election : Election} {now : Millis} {failure : Option Store.Error}
    (h : (f.step server act).cluster.standing? i = some ⟨election, .looking now, .sent failure⟩)
  | lands {election : Election} {a : Store.Access} {attempt : Election.Attempt a}
    {failure : Option Store.Error} (hact : act = .move (.land i))
    (hold : f.cluster.standing? i = some ⟨election, attempt, .sent failure⟩)
    (h : (f.step server act).cluster.standing? i =
      some ⟨election, attempt, .landed (server.answer f.state (attempt.call election)).1⟩)
  | goesOn {election : Election} {a a' : Store.Access} {attempt : Election.Attempt a}
    {answer : Store.Answer a} {attempt' : Election.Attempt a'} {failure : Option Store.Error}
    (hold : f.cluster.standing? i = some ⟨election, attempt, .landed answer⟩)
    (hresume : election.resume attempt answer = .waiting attempt')
    (h : (f.step server act).cluster.standing? i = some ⟨election, attempt', .sent failure⟩)
  | ends (h : (f.step server act).cluster.standing? i = none)

variable {server : Store.Server σ} {f start : Fleet σ} {acts : List (Act σ)} {act : Act σ}
  {l m m' d : Moment σ} {i j : ProcId} {election : Election} {now : Millis}

/-! ## One step -/

theorem standing?_answered_ne {a : Store.Access} {caller : Caller a} (hji : j ≠ i) :
    (f.answered server j caller).cluster.standing? i = f.cluster.standing? i := by
  have hprocs : (f.answered server j caller).cluster.procs[i]? = f.cluster.procs[i]? :=
    List.getElem?_set_ne hji
  rw [Cluster.standing?, Cluster.standing?, hprocs]
  rfl

/-- An attempt that has made a call has its answer, and nobody else stands for election by it. -/
theorem standing?_answered (server : Store.Server σ) {a : Store.Access} {caller : Caller a}
    {failure : Option Store.Error}
    (hq : f.cluster.procs[i]? = some (.awaiting caller (.sent failure))) :
    (f.answered server i caller).cluster.standing? i = f.cluster.standing? i ∨
      ∃ (election : Election) (attempt : Election.Attempt a),
        f.cluster.standing? i = some ⟨election, attempt, .sent failure⟩ ∧
        (f.answered server i caller).cluster.standing? i =
          some ⟨election, attempt, .landed (server.answer f.state (attempt.call election)).1⟩ := by
  obtain ⟨hi, -⟩ := List.getElem?_eq_some_iff.1 hq
  have hbefore := Cluster.standing?_of_getElem? hq
  have hafter : (f.answered server i caller).cluster.standing? i =
      (Cluster.Proc.awaiting caller
        (.landed (server.answer f.state (f.cluster.callOf caller)).1)).standing?
          f.cluster.options.2 :=
    Cluster.standing?_of_getElem? (List.getElem?_set_self hi)
  cases caller with
  | election election attempt => exact .inr ⟨_, _, hbefore, hafter⟩
  | broker b point =>
    cases point with
    | electing now attempt => exact .inr ⟨_, _, hbefore, hafter⟩
    | opening => exact .inl (hafter.trans hbefore.symm)
  | start | commit | beat | client => exact .inl (hafter.trans hbefore.symm)

/-- **What a step makes of an attempt.** -/
theorem standingStep (server : Store.Server σ) (f : Fleet σ) (act : Act σ) (i : ProcId) :
    StandingStep server f act i := by
  cases f.fleetStep server act with
  | @lands j a caller failure hact hq h =>
    by_cases hji : j = i
    · subst hji
      rcases standing?_answered server hq with hsame | ⟨election, attempt, hold, hnew⟩
      · exact .stays (h ▸ hsame)
      · exact .lands hact hold (h ▸ hnew)
    · exact .stays (h ▸ standing?_answered_ne hji)
  | @moves move hact hne h =>
    have hcluster : (f.step server act).cluster = f.cluster.step move := congrArg cluster h
    cases Cluster.standingStep (c := f.cluster) move i with
    | stays hstays => exact .stays (hcluster ▸ hstays)
    | begins _ hbegins => exact .begins (hcluster ▸ hbegins)
    | lands hland => exact absurd hland (hne i)
    | goesOn _ hold hresume hgoes => exact .goesOn hold hresume (hcluster ▸ hgoes)
    | ends _ _ _ hends => exact .ends (hcluster ▸ hends)
  | rests hcluster => exact .stays (congrArg (Cluster.standing? · i) hcluster)

theorem Lands.after {a : Store.Access} {attempt : Election.Attempt a} {answer : Store.Answer a}
    (h : Lands server m i election attempt answer) :
    (m.after (step server)).cluster.standing? i = some ⟨election, attempt, .landed answer⟩ := by
  obtain ⟨failure, hstands⟩ := h.stands
  obtain ⟨caller, hq, hcall, hstanding⟩ := Cluster.exists_caller hstands
  obtain ⟨hi, -⟩ := List.getElem?_eq_some_iff.1 hq
  have hlanded : (m.before.answered server i caller).cluster.procs[i]? =
      some (.awaiting caller (.landed answer)) := by
    rw [← h.answered, ← hcall]
    exact List.getElem?_set_self hi
  rw [Run.Moment.after, h.act, Fleet.step, land_of_sent _ hq,
    Cluster.standing?_of_getElem? hlanded]
  exact hstanding _

/-! ## It never goes back -/

theorem course_step (server : Store.Server σ) (f : Fleet σ) (act : Act σ) (i : ProcId) :
    f.cluster.course i ≤ (f.step server act).cluster.course i := by
  cases f.fleetStep server act with
  | @lands j a caller failure _ hq h =>
    have hsame (hstanding : (f.answered server j caller).cluster.standing? i =
        f.cluster.standing? i) :
        f.cluster.course i = (f.answered server j caller).cluster.course i := by
      have hlength : (f.answered server j caller).cluster.procs.length = f.cluster.procs.length :=
        List.length_set
      rw [Cluster.course, Cluster.course, hstanding, hlength]
    rw [h]
    by_cases hji : j = i
    · subst hji
      rcases standing?_answered server hq with hstanding | ⟨election, attempt, hold, hnew⟩
      · exact Nat.le_of_eq (hsame hstanding)
      · rw [Cluster.course_of_standing hold, Cluster.course_of_standing hnew]
        cases attempt <;> exact Nat.le_succ _
    · exact Nat.le_of_eq (hsame (standing?_answered_ne hji))
  | moves _ _ h =>
    rw [h]
    exact Cluster.course_le_step _ i
  | rests hcluster => rw [hcluster]

theorem course_run (f : Fleet σ) (acts : List (Act σ)) (i : ProcId) :
    f.cluster.course i ≤ (f.run server acts).cluster.course i := by
  induction acts generalizing f with
  | nil => exact Nat.le_refl _
  | cons act acts ih => exact Nat.le_trans (course_step server f act i) (ih _)

theorem Lands.course {a : Store.Access} {attempt : Election.Attempt a} {answer : Store.Answer a}
    (h : Lands server m i election attempt answer) :
    m.before.cluster.course i < (m.after (step server)).cluster.course i := by
  obtain ⟨failure, hstands⟩ := h.stands
  rw [Cluster.course_of_standing hstands, Cluster.course_of_standing h.after]
  cases attempt <;> exact Nat.lt_succ_self _

theorem course_le_of_sublist (h : [m, m'].Sublist (start.trail server acts)) (i : ProcId) :
    (m.after (step server)).cluster.course i ≤ m'.before.cluster.course i :=
  Run.rel_of_sublist (R := fun f f' : Fleet σ => f.cluster.course i ≤ f'.cluster.course i)
    (fun f acts => course_run f acts i) h

/-- An attempt looks once. -/
theorem Lands.unique {now' : Millis} {election' : Election} {answer answer' : Store.Answer .read}
    (hm : m ∈ start.trail server acts) (hm' : m' ∈ start.trail server acts)
    (h : Lands server m i election (.looking now) answer)
    (h' : Lands server m' i election' (.looking now') answer') : m = m' := by
  obtain ⟨failure, hstands⟩ := h.stands
  obtain ⟨failure', hstands'⟩ := h'.stands
  have hbefore := Cluster.course_of_standing hstands
  have hbefore' := Cluster.course_of_standing hstands'
  have hafter := Cluster.course_of_standing h.after
  have hafter' := Cluster.course_of_standing h'.after
  simp only [Cluster.Standing.rank] at hbefore hbefore' hafter hafter'
  rcases Run.eq_or_sublist_trail hm hm' with heq | horder | horder
  · exact heq
  · have := course_le_of_sublist horder i
    omega
  · have := course_le_of_sublist horder i
    omega

/-! ## What an attempt has been through -/

inductive Told (server : Store.Server σ) (moments : List (Moment σ)) (i : ProcId) :
    Cluster.Standing → Prop where
  | begun {election : Election} {now : Millis} {failure : Option Store.Error} :
    Told server moments i ⟨election, .looking now, .sent failure⟩
  | looked {l : Moment σ} {election : Election} {now : Millis} {answer : Store.Answer .read}
    (hl : l ∈ moments) (looks : Lands server l i election (.looking now) answer) :
    Told server moments i ⟨election, .looking now, .landed answer⟩
  | aimed {l : Moment σ} {election : Election} {now : Millis} {found : Store.Answer .read}
    {attempt : Election.Attempt .put} {failure : Option Store.Error} (hl : l ∈ moments)
    (looks : Lands server l i election (.looking now) found)
    (aims : election.resume (.looking now) found = .waiting attempt) :
    Told server moments i ⟨election, attempt, .sent failure⟩
  | put {l m : Moment σ} {election : Election} {now : Millis} {found : Store.Answer .read}
    {attempt : Election.Attempt .put} {answer : Store.Answer .put}
    (order : [l, m].Sublist moments) (looks : Lands server l i election (.looking now) found)
    (aims : election.resume (.looking now) found = .waiting attempt)
    (lands : Lands server m i election attempt answer) :
    Told server moments i ⟨election, attempt, .landed answer⟩

theorem Told.mono {s : Cluster.Standing} {moments moments' : List (Moment σ)}
    (h : Told server moments i s) (hsub : moments.Sublist moments') : Told server moments' i s := by
  cases h with
  | begun => exact .begun
  | looked hl looks => exact .looked (hsub.subset hl) looks
  | aimed hl looks aims => exact .aimed (hsub.subset hl) looks aims
  | put order looks aims lands => exact .put (order.trans hsub) looks aims lands

theorem told_step {moments : List (Moment σ)} {s : Cluster.Standing}
    (ih : ∀ s, f.cluster.standing? i = some s → Told server moments i s)
    (h : (f.step server act).cluster.standing? i = some s) :
    Told server (moments ++ [⟨f, act⟩]) i s := by
  have hsub : moments.Sublist (moments ++ [⟨f, act⟩]) := List.sublist_append_left _ _
  have hlast : (⟨f, act⟩ : Moment σ) ∈ moments ++ [⟨f, act⟩] := List.mem_concat_self
  cases standingStep server f act i with
  | stays hsame => exact (ih s (hsame.symm.trans h)).mono hsub
  | begins hnew =>
    cases hnew.symm.trans h
    exact .begun
  | @lands election a attempt failure hact hold hnew =>
    cases hnew.symm.trans h
    have lands : Lands server ⟨f, act⟩ i election attempt _ := ⟨hact, ⟨failure, hold⟩, rfl⟩
    cases ih _ hold with
    | begun => exact .looked hlast lands
    | aimed hl looks aims =>
      have order := (List.singleton_sublist.2 hl).append (List.Sublist.refl [⟨f, act⟩])
      exact .put order looks aims lands
  | @goesOn election a a' attempt answer attempt' failure hold hresume hnew =>
    cases hnew.symm.trans h
    cases a' with
    | read => exact absurd hresume Cluster.resume_ne_looking
    | put =>
      cases ih _ hold with
      | looked hl looks => exact .aimed (hsub.subset hl) looks hresume
      | put order looks aims lands =>
        rw [Cluster.resume_put] at hresume
        cases hresume
  | ends hnew => cases hnew.symm.trans h

/-- **What is known of an attempt** at any point of a run. -/
theorem told (hstart : start.cluster.procs = []) {s : Cluster.Standing}
    (h : (start.run server acts).cluster.standing? i = some s) :
    Told server (start.trail server acts) i s := by
  induction acts using List.reverseRecOn generalizing s with
  | nil => cases (Cluster.standing?_of_procs_eq hstart).symm.trans h
  | append_singleton acts act ih =>
    rw [run, Run.run_concat] at h
    rw [trail, Run.trail_concat]
    exact told_step (fun s => ih) h

/-- An attempt is decided by what it has found, or by the answer to its put. -/
theorem Decides.cases {outcome : Election.Outcome} (hstart : start.cluster.procs = [])
    (hd : d ∈ start.trail server acts) (h : Decides d i election outcome) :
    (∃ l ∈ start.trail server acts, ∃ now found, Lands server l i election (.looking now) found ∧
      election.resume (.looking now) found = .done outcome) ∨
    ∃ l m now found attempt answer, [l, m, d].Sublist (start.trail server acts) ∧
      Lands server l i election (.looking now) found ∧
      election.resume (.looking now) found = .waiting attempt ∧
      Lands server m i election attempt answer ∧ outcome = Election.verdict answer := by
  obtain ⟨a, attempt, answer, hstands, hdone⟩ := h.resolves
  obtain ⟨before, hbefore, hextend⟩ := Run.exists_before hd
  have hsub := hextend _ (List.Sublist.refl _)
  cases told hstart (hbefore ▸ hstands) with
  | looked hl looks =>
    exact .inl ⟨_, hsub.subset (List.mem_append_left _ hl), _, _, looks, hdone⟩
  | put order looks aims lands =>
    rw [Cluster.resume_put] at hdone
    cases hdone
    exact .inr ⟨_, _, _, _, _, _, (order.append (List.Sublist.refl [d])).trans hsub, looks, aims,
      lands, rfl⟩

end LeaseQueue.Fleet
