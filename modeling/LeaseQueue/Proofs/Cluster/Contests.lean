import LeaseQueue.Proofs.Cluster.Candidates
import LeaseQueue.Proofs.Cluster.Tenure
import LeaseQueue.Proofs.Queue.Decoding

/-!
# Contests

Many attempts to be elected go on at once, among others who put what they like.  An attempt is
elected if its put comes through, and that replaces the very version that it has looked at:

  `Aims election now found attempt → memory.Admits (attempt.call election) →`
  `(memory.entry? election.stateKey).map (·.version) = found.map (·.version)`

So of all that have seen the same version, or nothing at all, at most one is elected, and every
other outcome tells the truth as well (`Contested`).
-/

namespace LeaseQueue.Cluster

/-- The attempt comes to an end. -/
def Returns (moments : List Moment) (i : ProcId) (election : Election)
    (outcome : Election.Outcome) : Prop :=
  ∃ d ∈ moments, d.Decides i election outcome

/-- A takeover comes through over a document that names nobody, or somebody who was heard of too
long before `now`. -/
structure Moment.Displaces (m : Moment) (election : Election) (now : Millis)
    (e : Store.Memory.Entry) (old new : Document) : Prop where
  stood : m.before.memory.entry? election.stateKey = some e
  legible : Document.decode e.data = .ok old
  vacant : old.broker = none ∨
    election.heartbeatTimeout < now - old.brokerHeartbeat
  changes : new = { old with broker := some election.address, brokerHeartbeat := now }
  stored : ∃ version, m.after.memory.entry? election.stateKey = some ⟨new.encode, version⟩
  faithful : (∀ j ∈ old.jobs, j.payload.Integral) → Document.decode new.encode = .ok new

/-- What the outcomes of elections say about the moments of a run. -/
structure Contested (moments : List Moment) : Prop where
  /-- Of all that have seen the same version, or nothing, at most one is elected. -/
  agreement : ∀ l ∈ moments, ∀ l' ∈ moments, ∀ i i' election election' now now' found found',
    l.Looks i election now found → l'.Looks i' election' now' found' →
    election'.stateKey = election.stateKey →
    found'.map (·.version) = found.map (·.version) →
    Returns moments i election (.ok .elected) → Returns moments i' election' (.ok .elected) →
    i' = i
  /-- Being elected is to have one's put come through. -/
  elected : ∀ i election outcome, Returns moments i election outcome →
    (outcome = .ok .elected ↔
      ∃ r ∈ moments, ∃ attempt token, r.Lands i election attempt (.ok token))
  /-- Whoever has the answer to its put returns as soon as it proceeds. -/
  answered : ∀ r m, [r, m].Sublist moments → ∀ i election attempt answer,
    r.Lands i election attempt answer → m.act = .proceed i →
    Returns moments i election (Election.verdict answer)
  /-- Nobody puts anything who finds a leader. -/
  refrains : ∀ i election outcome, Returns moments i election outcome →
    (outcome = .ok .alreadyLeader ∨ ∃ leader, outcome = .ok (.otherLeader leader)) →
    ∀ m ∈ moments, ¬ m.HasPut i
  /-- A conflict is a put that changed nothing, because somebody else's came first. -/
  conflict : ∀ i election, Returns moments i election (.ok .conflict) →
    ∃ l w r, [l, w, r].Sublist moments ∧
      (∃ now found, l.Looks i election now found) ∧
      (∃ attempt cause, r.Lands i election attempt (.error cause)) ∧
      r.after.memory = r.before.memory ∧ ∃ j, j ≠ i ∧ w.Stores election.stateKey j
  takeover : ∀ r ∈ moments, ∀ i election document expected token,
    r.Lands i election (.takingOver document expected) (.ok token) →
    ∃ l now e old, [l, r].Sublist moments ∧ l.Looks i election now (some e) ∧
      r.Displaces election now e old document

variable {start : Cluster} {acts : List Act} {m l l' r r' d : Moment} {i i' : ProcId}
  {election election' : Election} {now now' : Millis} {found found' : Option Store.Memory.Entry}
  {attempt attempt' : Election.Attempt .put} {answer : Store.Answer .put}
  {token token' : Store.Token} {outcome : Election.Outcome} {memory : Store.Memory}

/-! ## What a put aims at -/

theorem Aims.cases (h : Aims election now found attempt) :
    (found = none ∧ attempt = .founding (Document.withBroker election.address now)) ∨
    ∃ e old, found = some e ∧ Document.decode e.data = .ok old ∧
      (old.broker = none ∨ election.heartbeatTimeout < now - old.brokerHeartbeat) ∧
      attempt = .takingOver (old.registerBroker election.address now) (toString e.version) := by
  cases found with
  | none =>
    cases h
    exact .inl ⟨rfl, rfl⟩
  | some e =>
    rw [Aims, Option.map_some, Store.Memory.Entry.toObject, Election.resume] at h
    dsimp only at h
    split at h
    · cases h
    next old hdecode =>
      refine .inr ⟨e, old, rfl, hdecode, ?_⟩
      unfold Election.consider at h
      split at h
      next leader hleader =>
        split at h
        · split at h <;> cases h
        next hstale =>
          cases h
          refine ⟨.inr ?_, rfl⟩
          simpa [Election.isFresh, Millis.isPast] using hstale
      next hnobody =>
        cases h
        exact ⟨.inl hnobody, rfl⟩

theorem Aims.version_eq (h : Aims election now found attempt)
    (hadmits : memory.Admits (attempt.call election)) :
    (memory.entry? election.stateKey).map (·.version) = found.map (·.version) := by
  rcases h.cases with ⟨rfl, rfl⟩ | ⟨e, old, rfl, -, -, rfl⟩
  · have hnone : memory.entry? election.stateKey = none := hadmits
    rw [hnone]
  · obtain ⟨x, hx, hversion⟩ := hadmits
    have hsame := Store.Memory.eq_of_parseVersion? hversion
    rw [hx, Option.map_some, Option.map_some, hsame]

theorem Aims.admits (h : Aims election now found attempt)
    (hfound : memory.entry? election.stateKey = found)
    (hcounted : ∀ e, found = some e → e.version < UInt64.size) :
    memory.Admits (attempt.call election) := by
  rcases h.cases with ⟨rfl, rfl⟩ | ⟨e, old, rfl, -, -, rfl⟩
  · exact hfound
  · exact ⟨e, hfound, Store.Memory.parseVersion?_toString (hcounted e rfl)⟩

/-! ## What is behind a put and an outcome -/

/-- What is known of an attempt at a moment, from the moments before. -/
theorem told_of_mem (hstart : start.procs = []) (hm : m ∈ start.trail acts) {s : Standing}
    (h : m.before.standing? i = some s) :
    ∃ earlier, (earlier ++ [m]).Sublist (start.trail acts) ∧ Told earlier i s := by
  obtain ⟨before, hbefore, hextend⟩ := exists_before hm
  exact ⟨start.trail before, hextend _ (List.Sublist.refl _), told hstart (hbefore ▸ h)⟩

theorem looks_of_lands (hstart : start.procs = []) (hr : r ∈ start.trail acts)
    (h : r.Lands i election attempt answer) :
    ∃ l now found, [l, r].Sublist (start.trail acts) ∧ l.Looks i election now found ∧
      Aims election now found attempt := by
  obtain ⟨failure, hstands, -⟩ := h.lands
  obtain ⟨earlier, hsub, htold⟩ := told_of_mem hstart hr hstands
  cases htold with
  | aimed hl looks aims =>
    have horder := (List.singleton_sublist.2 hl).append (List.Sublist.refl [r])
    exact ⟨_, _, _, horder.trans hsub, looks, aims⟩

/-- A look alone decides neither for the attempt nor for a conflict. -/
theorem outcome_of_look {answer : Store.Answer .read}
    (h : election.resume (.looking now) answer = .done outcome) :
    outcome ≠ .ok .elected ∧ outcome ≠ .ok .conflict := by
  revert h
  rcases answer with cause | _ | object
  · intro h
    cases h
    exact ⟨nofun, nofun⟩
  · exact nofun
  · rw [Election.resume]
    split
    · intro h
      cases h
      exact ⟨nofun, nofun⟩
    · unfold Election.consider
      split
      · split
        · split <;> exact fun h => by cases h; exact ⟨nofun, nofun⟩
        · exact nofun
      · exact nofun

/-- An attempt is decided when it has looked, or by the answer to its put. -/
theorem Moment.Decides.cases (hstart : start.procs = []) (hd : d ∈ start.trail acts)
    (h : d.Decides i election outcome) :
    (d.before.course i = 2 ∧ outcome ≠ .ok .elected ∧ outcome ≠ .ok .conflict) ∨
    ∃ l r now found attempt answer, [l, r, d].Sublist (start.trail acts) ∧
      l.Looks i election now found ∧ Aims election now found attempt ∧
      r.Lands i election attempt answer ∧ outcome = Election.verdict answer := by
  obtain ⟨a, attempt, answer, hstands, hdone⟩ := h.decides
  obtain ⟨earlier, hsub, htold⟩ := told_of_mem hstart hd hstands
  cases a with
  | read =>
    cases attempt with
    | looking now =>
      exact .inl ⟨course_of_standing hstands, outcome_of_look hdone⟩
  | put =>
    cases htold with
    | put order looks aims lands =>
      rw [resume_put] at hdone
      cases hdone
      exact .inr ⟨_, _, _, _, _, _, (order.append (List.Sublist.refl [d])).trans hsub, looks, aims,
        lands, rfl⟩

theorem verdict_eq_elected (h : Election.verdict answer = .ok .elected) :
    ∃ token, answer = .ok token := by
  revert h
  fun_cases Election.verdict answer
  case case1 token => exact fun _ => ⟨token, rfl⟩
  all_goals
    intro h
    cases h

theorem verdict_eq_conflict (h : Election.verdict answer = .ok .conflict) :
    ∃ key, answer = .error (.conflict key) := by
  revert h
  fun_cases Election.verdict answer
  case case2 key => exact fun _ => ⟨key, rfl⟩
  all_goals
    intro h
    cases h

/-- A put that comes through was admitted, and stored its document. -/
theorem Moment.Lands.stored (h : r.Lands i election attempt (.ok token)) :
    r.before.memory.Admits (attempt.call election) ∧
      r.after.memory = (r.before.memory.store election.stateKey
        (Store.Memory.payload (attempt.call election))).2 := by
  obtain ⟨failure, hstands, hok⟩ := h.lands
  obtain ⟨caller, hq, hcall, -⟩ := exists_caller hstands
  have hputs : r.Puts i caller token := ⟨h.act, failure, hq, hcall.symm ▸ hok⟩
  obtain ⟨hadmits, hstored⟩ := hputs.stored
  rw [hcall] at hadmits hstored
  have hkey : (attempt.call election).key = election.stateKey := by cases attempt <;> rfl
  exact ⟨hadmits, hkey ▸ congrArg Prod.snd hstored⟩

/-- Of an attempt there is one look, one put and one answer to it. -/
theorem Moment.Lands.unique {answer' : Store.Answer .put} (hr : r ∈ start.trail acts)
    (hr' : r' ∈ start.trail acts) (h : r.Lands i election attempt answer)
    (h' : r'.Lands i election' attempt' answer') : r' = r ∧ answer' = answer := by
  obtain ⟨hbefore, hafter⟩ := h.course
  obtain ⟨hbefore', hafter'⟩ := h'.course
  obtain rfl := eq_of_course hr' hr hbefore' (hafter' ▸ Nat.lt_succ_self 3) hbefore
    (hafter ▸ Nat.lt_succ_self 3)
  refine ⟨rfl, ?_⟩
  cases h'.after.symm.trans h.after
  rfl

/-! ## Agreement -/

/-- What has been taken over is not taken over a second time. -/
theorem version_ne_of_lands (hnumbered : start.memory.IsNumbered)
    (horder : [r, r'].Sublist (start.trail acts)) (h : r.Lands i election attempt (.ok token)) :
    (r'.before.memory.entry? election.stateKey).map (·.version) ≠
      (r.before.memory.entry? election.stateKey).map (·.version) := by
  have hr : r ∈ start.trail acts := horder.subset List.mem_cons_self
  have hages := ages_of_sublist horder
  rw [h.stored.2] at hages
  exact Store.Memory.version_ne_of_store (isNumbered_of_mem hnumbered hr) hages

theorem eq_of_lands (hnumbered : start.memory.IsNumbered) (hr : r ∈ start.trail acts)
    (hr' : r' ∈ start.trail acts) (h : r.Lands i election attempt (.ok token))
    (h' : r'.Lands i' election' attempt' (.ok token')) (haims : Aims election now found attempt)
    (haims' : Aims election' now' found' attempt')
    (hkey : election'.stateKey = election.stateKey)
    (hversion : found'.map (·.version) = found.map (·.version)) : i' = i := by
  have hfound := haims.version_eq h.stored.1
  have hfound' := haims'.version_eq h'.stored.1
  rw [hversion, ← hfound, hkey] at hfound'
  rcases eq_or_sublist_trail hr hr' with rfl | horder | horder
  · have hact := h'.act.symm.trans h.act
    cases hact
    rfl
  · exact absurd hfound' (version_ne_of_lands hnumbered horder h)
  · have hlater := version_ne_of_lands hnumbered horder h'
    rw [hkey] at hlater
    exact absurd hfound'.symm hlater

/-- Whoever is elected has put what its look made it aim at. -/
theorem Moment.Looks.lands_of_elected (hstart : start.procs = []) (hl : l ∈ start.trail acts)
    (looks : l.Looks i election now found)
    (hreturns : Returns (start.trail acts) i election (.ok .elected)) :
    ∃ r ∈ start.trail acts, ∃ attempt token, r.Lands i election attempt (.ok token) ∧
      Aims election now found attempt := by
  obtain ⟨d, hd, hdecides⟩ := hreturns
  rcases hdecides.cases hstart hd with ⟨-, hne, -⟩ | ⟨l', r, now', found', attempt, answer, hsub,
    looks', aims, lands, hverdict⟩
  · exact absurd rfl hne
  · obtain ⟨token, rfl⟩ := verdict_eq_elected hverdict.symm
    have hl' : l' ∈ start.trail acts := hsub.subset List.mem_cons_self
    have hr : r ∈ start.trail acts := hsub.subset (List.mem_cons_of_mem _ List.mem_cons_self)
    obtain ⟨hbefore, hafter⟩ := looks.course
    obtain ⟨hbefore', hafter'⟩ := looks'.course
    obtain rfl := eq_of_course hl' hl hbefore' (hafter' ▸ Nat.lt_succ_self 1) hbefore
      (hafter ▸ Nat.lt_succ_self 1)
    cases looks'.stands.symm.trans looks.stands
    obtain rfl := looks'.found.symm.trans looks.found
    exact ⟨r, hr, attempt, token, lands, aims⟩

/-- **Of all that have seen the same, at most one is elected.** -/
theorem eq_of_elected (hstart : start.procs = []) (hnumbered : start.memory.IsNumbered)
    (hl : l ∈ start.trail acts) (hl' : l' ∈ start.trail acts)
    (looks : l.Looks i election now found) (looks' : l'.Looks i' election' now' found')
    (hkey : election'.stateKey = election.stateKey)
    (hversion : found'.map (·.version) = found.map (·.version))
    (hreturns : Returns (start.trail acts) i election (.ok .elected))
    (hreturns' : Returns (start.trail acts) i' election' (.ok .elected)) : i' = i := by
  obtain ⟨r, hr, attempt, token, lands, aims⟩ := looks.lands_of_elected hstart hl hreturns
  obtain ⟨r', hr', attempt', token', lands', aims'⟩ := looks'.lands_of_elected hstart hl' hreturns'
  exact eq_of_lands hnumbered hr hr' lands lands' aims aims' hkey hversion

/-! ## Outcomes -/

theorem elected_iff (hstart : start.procs = [])
    (hreturns : Returns (start.trail acts) i election outcome) :
    outcome = .ok .elected ↔
      ∃ r ∈ start.trail acts, ∃ attempt token, r.Lands i election attempt (.ok token) := by
  obtain ⟨d, hd, hdecides⟩ := hreturns
  have hended := hdecides.after
  rcases hdecides.cases hstart hd with ⟨hlooked, hne, -⟩ | ⟨l, r, now, found, attempt, answer, hsub,
    looks, aims, lands, hverdict⟩
  · refine ⟨fun heq => absurd heq hne, ?_⟩
    rintro ⟨r, hr, attempt, token, lands⟩
    obtain ⟨hbefore, hafter⟩ := lands.course
    rcases eq_or_sublist_trail hd hr with rfl | horder | horder
    · omega
    · have := course_le_of_sublist horder i
      omega
    · have := course_le_of_sublist horder i
      omega
  · have hr : r ∈ start.trail acts := hsub.subset (List.mem_cons_of_mem _ List.mem_cons_self)
    constructor
    · intro heq
      obtain ⟨token, rfl⟩ := verdict_eq_elected (hverdict.symm.trans heq)
      exact ⟨r, hr, attempt, token, lands⟩
    · rintro ⟨r', hr', attempt', token, lands'⟩
      rw [hverdict, ← (lands.unique hr hr' lands').2]
      rfl

/-- An answer to a put stays until it decides the attempt. -/
theorem decides_or_stays {c : Cluster} (acts : List Act)
    (h : c.standing? i = some ⟨election, attempt, .landed answer⟩) :
    (∃ d ∈ c.trail acts, d.Decides i election (Election.verdict answer)) ∨
      (c.run acts).standing? i = c.standing? i := by
  induction acts generalizing c with
  | nil => exact .inr rfl
  | cons act acts ih =>
    cases standingStep (c := c) act i with
    | stays hsame =>
      rcases ih (hsame.trans h) with ⟨d, hd, hdecides⟩ | hstays
      · exact .inl ⟨d, List.mem_cons_of_mem _ hd, hdecides⟩
      · exact .inr (hstays.trans hsame)
    | begins hold => exact absurd (lt_length_of_standing h) (Nat.not_lt_of_le hold)
    | lands _ hold => cases h.symm.trans hold
    | goesOn _ hold hresume =>
      cases h.symm.trans hold
      rw [resume_put] at hresume
      cases hresume
    | ends hact hold hdone =>
      exact .inl ⟨⟨c, act⟩, List.mem_cons_self, hact, _, attempt, answer, h, resume_put ..⟩

theorem returns_of_lands (horder : [r, m].Sublist (start.trail acts))
    (lands : r.Lands i election attempt answer) (hact : m.act = .proceed i) :
    Returns (start.trail acts) i election (Election.verdict answer) := by
  obtain ⟨between, hbetween, hwithin⟩ := exists_between horder
  have hm : m ∈ start.trail acts := horder.subset (List.mem_cons_of_mem _ List.mem_cons_self)
  rcases decides_or_stays between lands.after with ⟨d, hd, hdecides⟩ | hstays
  · exact ⟨d, (hwithin d hd).subset (List.mem_cons_of_mem _ List.mem_cons_self), hdecides⟩
  · rw [← hbetween, lands.after] at hstays
    exact ⟨m, hm, hact, _, attempt, answer, hstays, resume_put ..⟩

theorem not_hasPut (hstart : start.procs = [])
    (hreturns : Returns (start.trail acts) i election outcome)
    (hleader : outcome = .ok .alreadyLeader ∨ ∃ leader, outcome = .ok (.otherLeader leader))
    (hm : m ∈ start.trail acts) : ¬ m.HasPut i := by
  rintro ⟨election', attempt, flight, hput⟩
  obtain ⟨d, hd, hdecides⟩ := hreturns
  have hended := hdecides.after
  have hlow : 3 ≤ Standing.rank ⟨election', attempt, flight⟩ := rank_put flight
  have hhigh := rank_le ⟨election', attempt, flight⟩
  rw [← course_of_standing hput] at hlow hhigh
  rcases hdecides.cases hstart hd with ⟨hlooked, -, -⟩ | ⟨-, -, -, -, -, answer, -, -, -, -, rfl⟩
  · rcases eq_or_sublist_trail hd hm with rfl | horder | horder
    · omega
    · have hlater := course_le_of_sublist horder i
      have hstep : m.before.course i ≤ m.after.course i := course_le_step m.act i
      omega
    · have := course_le_of_sublist horder i
      omega
  · revert hleader
    fun_cases Election.verdict answer <;> rintro (hleader | ⟨leader, hleader⟩) <;> cases hleader

/-! ## Conflicts -/

/-- What an attempt stores it stores by its put. -/
theorem Moment.Puts.lands_of_standing {caller : Caller .put} (h : m.Puts i caller token)
    {s : Standing} (hs : m.before.standing? i = some s) :
    ∃ attempt : Election.Attempt .put, m.Lands i s.election attempt (.ok token) := by
  obtain ⟨failure, hq, hok⟩ := h.lands
  obtain ⟨election, attempt, flight⟩ := s
  obtain ⟨caller', hq', hcall, -⟩ := exists_caller hs
  cases hq.symm.trans hq'
  rw [hcall] at hok
  exact ⟨attempt, h.act, failure, hs, hok⟩

theorem Moment.Lands.memory_eq {cause : Store.Error}
    (h : r.Lands i election attempt (.error cause)) : r.after.memory = r.before.memory := by
  obtain ⟨failure, hstands, herror⟩ := h.lands
  obtain ⟨caller, hq, hcall, -⟩ := exists_caller hstands
  have hafter : r.after.memory =
      (r.before.memory.finish ⟨attempt.call election, failure⟩).2 := by
    rw [Moment.after, h.act, step, land, hq, ← hcall]
    rfl
  rcases r.before.memory.finish_put (attempt.call election) failure with ⟨_, heq⟩ | ⟨-, heq⟩
  · rw [hafter, heq]
  · rw [heq] at herror
    cases herror

theorem lastVersion_le_of_mem (hm : m ∈ start.trail acts) :
    m.before.memory.lastVersion ≤ (start.run acts).memory.lastVersion := by
  obtain ⟨earlier, later, rfl, hbefore⟩ := mem_trail.1 hm
  rw [hbefore, run_append]
  exact (ages_run _).lastVersion

/-- Nobody is refused a put unless the object has changed since the look. -/
theorem entry_ne_of_lands (hstart : start.procs = []) (hnumbered : start.memory.IsNumbered)
    (hcalm : ∀ m ∈ start.trail acts, m.before.memory.options.failure = none)
    (hcounted : (start.run acts).memory.lastVersion < UInt64.size)
    (horder : [l, r].Sublist (start.trail acts)) (looks : l.Looks i election now found)
    (aims : Aims election now found attempt) {cause : Store.Error}
    (lands : r.Lands i election attempt (.error cause)) :
    r.before.memory.entry? election.stateKey ≠ found := by
  intro hsame
  have hl : l ∈ start.trail acts := horder.subset List.mem_cons_self
  have hr : r ∈ start.trail acts := horder.subset (List.mem_cons_of_mem _ List.mem_cons_self)
  have hadmits : r.before.memory.Admits (attempt.call election) := by
    refine aims.admits hsame fun e he => ?_
    have hversion := isNumbered_of_mem hnumbered hl _ e (looks.found.trans he)
    have hlast := lastVersion_le_of_mem hl
    omega
  obtain ⟨failure, hstands, herror⟩ := lands.lands
  obtain ⟨earlier, later, rfl, hbefore⟩ := mem_trail.1 hr
  obtain rfl : failure = none := by
    rw [hbefore] at hstands
    rw [trail_append] at hcalm
    exact failure_eq_none hstart (fun m hm => hcalm m (List.mem_append_left _ hm)) hstands
  rw [Store.Memory.finish_of_admits hadmits] at herror
  cases herror

theorem exists_rival (hstart : start.procs = []) (hnumbered : start.memory.IsNumbered)
    (hcalm : ∀ m ∈ start.trail acts, m.before.memory.options.failure = none)
    (hcounted : (start.run acts).memory.lastVersion < UInt64.size)
    (horder : [l, r].Sublist (start.trail acts)) (looks : l.Looks i election now found)
    (aims : Aims election now found attempt) {cause : Store.Error}
    (lands : r.Lands i election attempt (.error cause)) :
    ∃ w, [l, w, r].Sublist (start.trail acts) ∧ ∃ j, j ≠ i ∧ w.Stores election.stateKey j := by
  have hne := entry_ne_of_lands hstart hnumbered hcalm hcounted horder looks aims lands
  obtain ⟨between, hbetween, hwithin⟩ := exists_between horder
  rw [hbetween, ← looks.found, ← looks.after.2] at hne
  obtain ⟨w, hw, j, hstores⟩ := exists_stores_of_ne hne
  have hsub := hwithin w hw
  refine ⟨w, hsub, j, ?_, hstores⟩
  rintro rfl
  -- Its own put comes at `r`; so far the attempt has not put anything.
  have hbegins : [l, w].Sublist [l, w, r] := List.sublist_append_left [l, w] [r]
  have hfirst := course_le_of_sublist (hbegins.trans hsub) j
  have hsecond := course_le_of_sublist ((List.sublist_cons_self l [w, r]).trans hsub) j
  obtain ⟨hlooked, hsent⟩ := And.intro looks.course.2 lands.course.1
  have hstep : w.before.course j ≤ w.after.course j := course_le_step w.act j
  cases hs : w.before.standing? j with
  | none =>
    have hcourse := course_of_none hs
    omega
  | some s =>
    obtain ⟨caller, token, hputs, -⟩ := hstores
    obtain ⟨attempt', lands'⟩ := hputs.lands_of_standing hs
    have hput := lands'.course.2
    omega

/-! ## Takeovers -/

theorem displaces_of_lands (hstart : start.procs = []) (hnumbered : start.memory.IsNumbered)
    (hr : r ∈ start.trail acts) {document : Document} {expected : Store.Token}
    (lands : r.Lands i election (.takingOver document expected) (.ok token)) :
    ∃ l now e old, [l, r].Sublist (start.trail acts) ∧ l.Looks i election now (some e) ∧
      r.Displaces election now e old document := by
  obtain ⟨l, now, found, horder, looks, aims⟩ := looks_of_lands hstart hr lands
  obtain ⟨hadmits, hmemory⟩ := lands.stored
  have hversion := aims.version_eq hadmits
  rcases aims.cases with ⟨-, hfounding⟩ | ⟨e, old, rfl, hdecode, hvacant, htaking⟩
  · cases hfounding
  cases htaking
  refine ⟨l, now, e, old, horder, looks, ?_, hdecode, hvacant, rfl, ?_, fun hintegral => ?_⟩
  · obtain ⟨x, hx, hsame⟩ := Option.map_eq_some_iff.1 hversion
    have hl : l ∈ start.trail acts := horder.subset List.mem_cons_self
    have hages := ages_of_sublist horder
    rw [looks.after.2] at hages
    rw [hx, hages.eq_of_version (isNumbered_of_mem hnumbered hl) looks.found hx hsame]
  · refine ⟨r.before.memory.lastVersion + 1, ?_⟩
    rw [hmemory, Store.Memory.entry?_store, if_pos rfl]
    rfl
  · have hfits := Document.fitsIn_of_decode hdecode
    have hpayloads : (old.registerBroker election.address now).HasPayloads :=
      fun j hj => ⟨hintegral j hj, (hfits j hj).1⟩
    rw [Document.decode_encode hpayloads]
    exact if_pos fun j hj => (hfits j hj).2

/-- **What the outcomes of elections say is so**, in every run without injected failures. -/
theorem contested_run (engines : Nat → Engine.Options) (brokers : BrokerId → Broker.Options)
    (memory : Store.Memory) (ids : IdSupply) (clock : Millis) (acts : List Act)
    (hnumbered : memory.IsNumbered) :
    let start := init engines brokers memory ids clock
    (∀ m ∈ start.trail acts, m.before.memory.options.failure = none) →
    (start.run acts).memory.lastVersion < UInt64.size → Contested (start.trail acts) := by
  intro start hcalm hcounted
  refine ⟨?_, fun i election outcome => elected_iff rfl, ?_, ?_, ?_, ?_⟩
  · intro l hl l' hl' i i' election election' now now' found found' looks looks' hkey hversion
    exact eq_of_elected rfl hnumbered hl hl' looks looks' hkey hversion
  · intro r m horder i election attempt answer
    exact returns_of_lands horder
  · intro i election outcome hreturns hleader m hm
    exact not_hasPut rfl hreturns hleader hm
  · rintro i election ⟨d, hd, hdecides⟩
    rcases hdecides.cases rfl hd with ⟨-, -, hne⟩ | ⟨l, r, now, found, attempt, answer, hsub, looks,
      aims, lands, hverdict⟩
    · exact absurd rfl hne
    · obtain ⟨key, rfl⟩ := verdict_eq_conflict hverdict.symm
      have horder := (List.sublist_append_left [l, r] [d]).trans hsub
      obtain ⟨w, hbetween, hrival⟩ :=
        exists_rival rfl hnumbered hcalm hcounted horder looks aims lands
      exact ⟨l, w, r, hbetween, ⟨now, found, looks⟩, ⟨attempt, _, lands⟩, lands.memory_eq, hrival⟩
  · intro r hr i election document expected token lands
    exact displaces_of_lands rfl hnumbered hr lands

/-- A store whose leader has not been heard of for long. -/
def abandoned : Store.Memory :=
  ⟨[("queue/state.json", ⟨(Document.withBroker "old:1" 0).encode, 1⟩)], 1, ⟨0, none⟩, 0, 0, 0⟩

def arena : Cluster :=
  init (fun _ => .standard) (fun b => .standard (toString b)) abandoned ⟨toString, 0⟩ 0

def challenger (address : String) : Election :=
  ⟨address, "queue/state.json", Election.defaultTimeout⟩

/-- Two challengers look at the same document, and then both want to take over. -/
def race : List Act :=
  [.elect (challenger "b:1") 10001, .elect (challenger "c:1") 10001, .land 0, .land 1, .proceed 0,
    .proceed 1, .land 0, .land 1, .proceed 0, .proceed 1]

theorem contested_takeovers :
    (abandoned.IsNumbered ∧
      (∀ m ∈ arena.trail race, m.before.memory.options.failure = none) ∧
      (arena.run race).memory.lastVersion < UInt64.size) ∧
    Contested (arena.trail race) ∧
    Returns (arena.trail race) 0 (challenger "b:1") (.ok .elected) ∧
    Returns (arena.trail race) 1 (challenger "c:1") (.ok .conflict) := by
  have hnumbered : abandoned.IsNumbered := by
    intro key e he
    rw [Store.Memory.entry?, abandoned, List.lookup_cons] at he
    split at he
    · cases he
      exact Nat.le_refl 1
    · cases he
  have hcalm : ∀ m ∈ arena.trail race, m.before.memory.options.failure = none := by
    have hfailures : ∀ failure ∈ (arena.trail race).map fun m => m.before.memory.options.failure,
        failure = none := by decide +kernel
    exact List.forall_mem_map.1 hfailures
  have hcounted : (arena.run race).memory.lastVersion < UInt64.size := by decide +kernel
  have hfirst : (arena.run (race.take 8)).standing? 0 = some ⟨challenger "b:1",
      .takingOver (Document.withBroker "b:1" 10001) "1", .landed (.ok "2")⟩ := rfl
  have hsecond : (arena.run (race.take 9)).standing? 1 = some ⟨challenger "c:1",
      .takingOver (Document.withBroker "c:1" 10001) "1",
      .landed (.error (.conflict "queue/state.json"))⟩ := rfl
  refine ⟨⟨hnumbered, hcalm, hcounted⟩,
    contested_run _ _ abandoned _ _ race hnumbered hcalm hcounted, ?_, ?_⟩
  · exact ⟨⟨arena.run (race.take 8), .proceed 0⟩, mem_trail.2 ⟨race.take 8, [.proceed 1], rfl, rfl⟩,
      rfl, .put, _, _, hfirst, rfl⟩
  · exact ⟨⟨arena.run (race.take 9), .proceed 1⟩, mem_trail.2 ⟨race.take 9, [], rfl, rfl⟩,
      rfl, .put, _, _, hsecond, rfl⟩

end LeaseQueue.Cluster
