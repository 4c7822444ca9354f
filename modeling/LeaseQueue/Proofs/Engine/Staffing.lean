import LeaseQueue.Proofs.Engine.Roster

/-!
# Who is in charge of an engine

The epoch of a roster never goes back.  An engine that is starting has a start of the present epoch,
and one that is running has a loop of it (`Staffed`).  Since epochs tell processes apart, there is
exactly one:

  `r.phase = .running ↔ ∃! i, ∃ s, r.duty i = .loop r.epoch s`

And as long as nobody stops an engine that runs, no loop is left over from an earlier epoch.
-/

namespace LeaseQueue.Engine.Roster

/-- Somebody is on duty for the phase that the engine is in. -/
structure Staffed (r : Roster) : Prop where
  starting : r.phase = .starting → ∃ i, r.duty i = .start r.epoch
  running : r.phase = .running → ∃ i s, r.duty i = .loop r.epoch s

variable {retries : Nat} {actor : Option Nat} {r r' : Roster} {i j : Nat}

theorem staffed_empty : Roster.empty.Staffed := ⟨nofun, nofun⟩

theorem Staffed.mono (h : r.Staffed) (hphase : r'.phase = r.phase) (hepoch : r'.epoch = r.epoch)
    (hstart : ∀ i, r.duty i = .start r.epoch → r'.duty i = .start r.epoch)
    (hloop : ∀ i s, r.duty i = .loop r.epoch s → r.phase = .running →
      ∃ s', r'.duty i = .loop r.epoch s') : r'.Staffed where
  starting := by
    intro hstarting
    rw [hphase] at hstarting
    obtain ⟨i, hi⟩ := h.starting hstarting
    exact ⟨i, hepoch ▸ hstart i hi⟩
  running := by
    intro hrunning
    rw [hphase] at hrunning
    obtain ⟨i, s, hi⟩ := h.running hrunning
    obtain ⟨s', hi'⟩ := hloop i s hi hrunning
    exact ⟨i, s', hepoch ▸ hi'⟩

/-- A loop goes on as a loop of its epoch, at least if that is the present one. -/
theorem Staffed.of_loop (h : r.Staffed) {n : Nat} {s : Stage} {d : Duty} (hi : r.duty i = .loop n s)
    (hd : r.isCurrent n → ∃ s', d = .loop n s') (hduty : r'.duty = (r.enter i d).duty)
    (hphase : r'.phase = r.phase) (hepoch : r'.epoch = r.epoch) : r'.Staffed := by
  refine h.mono hphase hepoch ?_ ?_
  · intro j hj
    have hji : j ≠ i := by
      rintro rfl
      rw [hi] at hj
      cases hj
    rw [hduty, duty_enter_of_ne r d hji]
    exact hj
  · intro j s₀ hj hrunning
    rw [hduty]
    by_cases hji : j = i
    · subst hji
      rw [hi] at hj
      cases hj
      rw [duty_enter_self]
      exact hd (by simp [isCurrent, hrunning])
    · rw [duty_enter_of_ne r d hji]
      exact ⟨s₀, hj⟩

/-- A start of an epoch that is over does not matter. -/
theorem Staffed.fail (h : r.Staffed) {n : Nat} (hi : r.duty i = .start n) :
    Staffed { r.enter i .off with phase := if r.epoch = n then .stopped else r.phase } := by
  by_cases hn : r.epoch = n
  · rw [if_pos hn]
    exact ⟨nofun, nofun⟩
  · have hother {j : Nat} {d : Duty} (hj : r.duty j = d) (hd : d.epoch? = some r.epoch) :
        (r.enter i .off).duty j = d := by
      have hji : j ≠ i := by
        rintro rfl
        rw [hi] at hj
        subst hj
        exact hn (Option.some.inj hd).symm
      rw [duty_enter_of_ne r .off hji]
      exact hj
    rw [if_neg hn]
    exact h.mono rfl rfl (fun j hj => hother hj rfl) fun j s hj _ => ⟨s, hother hj rfl⟩

theorem Staffed.step (h : r.Staffed) (hstep : Step retries actor r r') : r'.Staffed := by
  cases hstep with
  | elsewhere n => exact ⟨h.starting, h.running⟩
  | submit m hphase => exact ⟨h.starting, h.running⟩
  | stop => exact ⟨nofun, nofun⟩
  | fail i n hi => exact h.fail hi
  | run i j n ms hi hn hj =>
    refine ⟨nofun, fun _ => ⟨j, .resting, ?_⟩⟩
    rw [← hn]
    exact Function.update_self ..
  | wake i n hi hn => exact h.of_loop hi (fun _ => ⟨_, rfl⟩) rfl rfl rfl
  | rest i n s hi hs =>
    refine h.of_loop hi ?_ rfl rfl rfl
    intro hcurrent
    rw [if_pos hcurrent]
    exact ⟨.resting, rfl⟩
  | drain i n s hi hbuffer hs => exact h.of_loop hi (fun _ => ⟨_, rfl⟩) rfl rfl rfl
  | goOn i n s s' hi hs => exact h.of_loop hi (fun _ => ⟨_, rfl⟩) rfl rfl rfl
  | land i n pass landed hi => exact h.of_loop hi (fun _ => ⟨_, rfl⟩) rfl rfl rfl

theorem Staffed.begin (hbegin : Begin i r r') : r'.Staffed := by
  obtain ⟨-, hi⟩ := hbegin
  exact ⟨fun _ => ⟨i, duty_enter_self ..⟩, nofun⟩

/-! ## Exactly one -/

theorem running_iff (hwell : r.WellFormed retries) (hstaffed : r.Staffed) :
    r.phase = .running ↔ ∃! i, ∃ s, r.duty i = .loop r.epoch s := by
  constructor
  · intro hrunning
    obtain ⟨i, s, hi⟩ := hstaffed.running hrunning
    refine ⟨i, ⟨s, hi⟩, ?_⟩
    rintro j ⟨t, hj⟩
    exact hwell.unique j i r.epoch (congrArg Duty.epoch? hj) (congrArg Duty.epoch? hi)
  · rintro ⟨i, ⟨s, hi⟩, -⟩
    exact hwell.running i s hi

theorem starting_iff (hwell : r.WellFormed retries) (hstaffed : r.Staffed) :
    r.phase = .starting ↔ ∃! i, r.duty i = .start r.epoch := by
  constructor
  · intro hstarting
    obtain ⟨i, hi⟩ := hstaffed.starting hstarting
    refine ⟨i, hi, ?_⟩
    intro j hj
    exact hwell.unique j i r.epoch (congrArg Duty.epoch? hj) (congrArg Duty.epoch? hi)
  · rintro ⟨i, hi, -⟩
    exact hwell.starting i hi

/-! ## Loops of the present epoch -/

/-- No loop is left over from an epoch that is over. -/
def IsPresent (r : Roster) : Prop := ∀ i n s, r.duty i = .loop n s → n = r.epoch

theorem isPresent_empty : Roster.empty.IsPresent := nofun

theorem IsPresent.running (h : r.IsPresent) (hwell : r.WellFormed retries) {n : Nat} {s : Stage}
    (hi : r.duty i = .loop n s) : r.phase = .running := by
  obtain rfl := h i n s hi
  exact hwell.running i s hi

/-- There is one loop at a time. -/
theorem IsPresent.unique (h : r.IsPresent) (hwell : r.WellFormed retries) {n n' : Nat}
    {s s' : Stage} (hi : r.duty i = .loop n s) (hj : r.duty j = .loop n' s') : i = j := by
  obtain rfl := h i n s hi
  obtain rfl := h j n' s' hj
  exact hwell.unique i j r.epoch (congrArg Duty.epoch? hi) (congrArg Duty.epoch? hj)

/-- Of an engine that runs only starts are left whose epoch is over. -/
theorem WellFormed.lt_of_start (hwell : r.WellFormed retries) {n : Nat} (hi : r.duty i = .start n)
    (hrunning : r.phase = .running) : n < r.epoch := by
  refine Nat.lt_of_le_of_ne (hwell.bounded i n (congrArg Duty.epoch? hi)) ?_
  rintro rfl
  cases (hwell.starting i hi).symm.trans hrunning

theorem IsPresent.of_enter (h : r.IsPresent) {d : Duty} (hd : ∀ n s, d = .loop n s → n = r.epoch)
    (hduty : r'.duty = (r.enter i d).duty) (hepoch : r'.epoch = r.epoch) : r'.IsPresent := by
  intro j n s hj
  rw [hepoch]
  rw [hduty] at hj
  by_cases hji : j = i
  · subst hji
    rw [duty_enter_self] at hj
    exact hd n s hj
  · rw [duty_enter_of_ne r d hji] at hj
    exact h j n s hj

/-- Loops are left over only by stopping an engine that runs. -/
theorem IsPresent.step (h : r.IsPresent) (hwell : r.WellFormed retries)
    (hstep : Step retries actor r r') (hrunning : r.phase = .running → r'.phase = .running) :
    r'.IsPresent := by
  have hgoesOn {i : Nat} {d : Duty} {n : Nat} {s : Stage} (hi : r.duty i = .loop n s)
      (hd : ∀ n' s', d = .loop n' s' → n' = n) (n' : Nat) (s' : Stage) (hd' : d = .loop n' s') :
      n' = r.epoch := (hd n' s' hd').trans (h i n s hi)
  cases hstep with
  | elsewhere n => exact h
  | submit m hphase => exact h
  | stop =>
    intro j n s hj
    cases hrunning (h.running hwell hj)
  | fail i n hi => exact h.of_enter (i := i) (d := .off) nofun rfl rfl
  | run i j n ms hi hn hj =>
    have hended : (r.enter i .off).IsPresent := h.of_enter (d := .off) nofun rfl rfl
    refine hended.of_enter (i := j) (d := .loop n .resting) ?_ rfl rfl
    intro n' s' heq
    cases heq
    exact hn.symm
  | wake i n hi hn =>
    refine h.of_enter (hgoesOn hi ?_) rfl rfl
    rintro n' s' ⟨⟩
    rfl
  | rest i n s hi hs =>
    refine h.of_enter (hgoesOn hi ?_) rfl rfl
    intro n' s' heq
    split at heq <;> cases heq
    rfl
  | drain i n s hi hbuffer hs | goOn i n _ s hi hs | land i n pass landed hi =>
    refine h.of_enter (hgoesOn hi ?_) rfl rfl
    rintro n' s' ⟨⟩
    rfl

theorem IsPresent.begin (h : r.IsPresent) (hwell : r.WellFormed retries)
    (hbegin : Begin i r r') : r'.IsPresent := by
  obtain ⟨hstopped, hi⟩ := hbegin
  intro j n s hj
  by_cases hji : j = i
  · subst hji
    cases (duty_enter_self r j _).symm.trans hj
  · have hold := (duty_enter_of_ne r _ hji).symm.trans hj
    cases (h.running hwell hold).symm.trans hstopped

end LeaseQueue.Engine.Roster
