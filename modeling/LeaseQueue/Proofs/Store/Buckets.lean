import LeaseQueue.Store.Throttle
import Mathlib.Algebra.Order.Field.Rat
import Mathlib.Data.Rat.Floor
import Mathlib.Tactic.Linarith
import Mathlib.Tactic.Ring

/-!
# How fast a bucket lets calls go

Calls leave a bucket in the order in which they came, and in any span of time no more of them than
its burst and what comes in meanwhile:

  `countWithin a b (bucket.releases calls) ≤ burst + (b - a + 1) * limit / 60000`

The level is counted in fractions.  Each call has an instant at which its token is due, which may
lie before the call as long as there are tokens to spare.  Two calls are due at least the time apart
that a token takes to come in; a call is due at most a burst before it is made, and it leaves as
soon as it is both made and due, at the next full millisecond.
-/

namespace LeaseQueue.Store.Bucket

/-- When calls leave that are made at these times, one after another. -/
def releases {α : Type} [Level α] (b : Bucket α) : List Nat → List Nat
  | [] => []
  | now :: later =>
    let (wait, b) := b.acquire now
    (now + wait) :: b.releases later

/-- How many of some times are from `a` to `b`. -/
def countWithin (a b : Rat) (times : List Nat) : Nat :=
  times.countP fun w : Nat => a ≤ (w : Rat) ∧ (w : Rat) ≤ b

/-! ## One call -/

/-- The time that a token takes to come in. -/
def spacing (b : Bucket Rat) : Rat := 60000 / b.perMinute

/-- When the token of a call is there. -/
def due (b : Bucket Rat) (now : Nat) : Rat := now + (1 - (b.refill now).tokens) * b.spacing

/-- When the next token is there, if the last one was taken at this time. -/
def ready (b : Bucket Rat) (last : Nat) : Rat := last + (1 - b.tokens) * b.spacing

/-- Tokens come in, and no more of them are kept than the burst. -/
structure IsSound (b : Bucket Rat) : Prop where
  perMinute : 0 < b.perMinute
  tokens : b.tokens ≤ b.burst

variable {b : Bucket Rat} {now last : Nat}

theorem IsSound.spacing_pos (h : b.IsSound) : 0 < b.spacing := div_pos (by norm_num) h.perMinute

theorem refill_of_le (h : now ≤ b.refilledAt) : b.refill now = b := by
  have hzero : now - b.refilledAt = 0 := Nat.sub_eq_zero_of_le h
  simp only [refill, Level.ofMillis, Level.ofNat, Level.isLess, hzero]
  rfl

theorem refill_of_lt (h : b.refilledAt < now) : b.refill now = { b with
    tokens := min (b.tokens + (now - b.refilledAt) / b.spacing) b.burst
    refilledAt := now } := by
  have helapsed : ((0 : Nat) : Rat) < ((now - b.refilledAt : Nat) : Rat) :=
    Nat.cast_lt.2 (Nat.sub_pos_of_lt h)
  have hlevel : b.tokens + ((now - b.refilledAt : Nat) : Rat) * b.perMinute / (60000 : Nat) =
      b.tokens + (now - b.refilledAt) / b.spacing := by
    rw [spacing, div_div_eq_mul_div, Nat.cast_sub h.le]
    norm_num
  have hrefill : b.refill now =
      if decide (((0 : Nat) : Rat) < ((now - b.refilledAt : Nat) : Rat)) then
        let level := b.tokens + ((now - b.refilledAt : Nat) : Rat) * b.perMinute / (60000 : Nat)
        { b with
          tokens := if decide (level < b.burst) then level else b.burst
          refilledAt := now }
      else b := rfl
  rw [hrefill, if_pos (decide_eq_true helapsed)]
  simp only [hlevel, decide_eq_true_eq, min_def_lt]

/-- What a refill brings in and what it leaves as it was. -/
theorem refill_spec (h : b.IsSound) (hlast : last ≤ b.refilledAt) (hnow : last ≤ now) :
    (b.refill now).IsSound ∧ (b.refill now).spacing = b.spacing ∧
      (b.refill now).burst = b.burst ∧ now ≤ (b.refill now).refilledAt ∧
      ((b.refill now).tokens - b.tokens) * b.spacing ≤ now - last := by
  rcases Nat.lt_or_ge b.refilledAt now with hlt | hge
  · rw [refill_of_lt hlt]
    refine ⟨⟨h.perMinute, min_le_right _ _⟩, rfl, rfl, le_rfl, ?_⟩
    have hpos := h.spacing_pos
    have hmin : min (b.tokens + (now - b.refilledAt) / b.spacing) b.burst - b.tokens ≤
        (now - b.refilledAt) / b.spacing := by
      linarith [min_le_left (b.tokens + (now - b.refilledAt) / b.spacing) b.burst]
    have hlast' : (last : Rat) ≤ b.refilledAt := Nat.cast_le.2 hlast
    calc _ ≤ (now - b.refilledAt : Rat) / b.spacing * b.spacing :=
          mul_le_mul_of_nonneg_right hmin hpos.le
      _ = now - b.refilledAt := div_mul_cancel₀ _ hpos.ne'
      _ ≤ now - last := by linarith
  · rw [refill_of_le hge]
    have hnow' : (last : Rat) ≤ now := Nat.cast_le.2 hnow
    exact ⟨h, rfl, rfl, hge, by linarith⟩

/-- What is left after a call, and the next token comes one spacing after that of the call. -/
theorem acquire_bucket (h : b.IsSound) (hlast : last ≤ b.refilledAt) (hnow : last ≤ now) :
    (b.acquire now).2.IsSound ∧ (b.acquire now).2.spacing = b.spacing ∧
      (b.acquire now).2.burst = b.burst ∧ now ≤ (b.acquire now).2.refilledAt ∧
      (b.acquire now).2.ready now = b.due now + b.spacing := by
  obtain ⟨hsound, hspacing, hburst, hrefilled, -⟩ := refill_spec h hlast hnow
  have hacquire : (b.acquire now).2 =
      { b.refill now with tokens := (b.refill now).tokens - 1 } := rfl
  have hready : (b.acquire now).2.ready now =
      now + (1 - ((b.refill now).tokens - 1)) * (b.refill now).spacing := rfl
  refine ⟨⟨hsound.perMinute, ?_⟩, hspacing, hburst, hrefilled, ?_⟩
  · rw [hacquire]
    linarith [hsound.tokens]
  · rw [hready, hspacing, due]
    ring

theorem ready_le_due (h : b.IsSound) (hlast : last ≤ b.refilledAt) (hnow : last ≤ now) :
    b.ready last ≤ b.due now := by
  obtain ⟨-, -, -, -, hgain⟩ := refill_spec h hlast hnow
  rw [ready, due]
  linarith

/-- No token is due more than a burst before the call. -/
theorem le_due (h : b.IsSound) (hlast : last ≤ b.refilledAt) (hnow : last ≤ now) :
    now - (b.burst - 1) * b.spacing ≤ b.due now := by
  obtain ⟨hsound, -, hburst, -, -⟩ := refill_spec h hlast hnow
  have htokens : (b.refill now).tokens ≤ b.burst := hburst ▸ hsound.tokens
  have := mul_le_mul_of_nonneg_right htokens h.spacing_pos.le
  rw [due]
  linarith

/-- A call leaves at the first millisecond at which it is made and its token is there. -/
theorem acquire_wait (h : b.IsSound) (hlast : last ≤ b.refilledAt) (hnow : last ≤ now) :
    b.due now ≤ now + ((b.acquire now).1 : Rat) ∧
      ((b.acquire now).1 = 0 ∨ now + ((b.acquire now).1 : Rat) < b.due now + 1) := by
  obtain ⟨hsound, hspacing, -, -, -⟩ := refill_spec h hlast hnow
  have hspan : (1 - (b.refill now).tokens) * (60000 : Nat) / (b.refill now).perMinute =
      (1 - (b.refill now).tokens) * b.spacing := by
    rw [← hspacing, spacing, mul_div_assoc]
    norm_num
  have hwait : (b.acquire now).1 =
      if decide (((0 : Nat) : Rat) < ((1 : Nat) : Rat) - (b.refill now).tokens) then
        (((1 : Nat) - (b.refill now).tokens) * (60000 : Nat) / (b.refill now).perMinute).ceil.toNat
      else 0 := rfl
  rw [Nat.cast_one, Nat.cast_zero, hspan] at hwait
  by_cases hdeficit : 0 < 1 - (b.refill now).tokens
  · rw [if_pos (decide_eq_true hdeficit)] at hwait
    have hpos := mul_pos hdeficit h.spacing_pos
    have hceil := Rat.le_ceil (x := (1 - (b.refill now).tokens) * b.spacing)
    have hceil' := Rat.ceil_lt (x := (1 - (b.refill now).tokens) * b.spacing)
    have hcast : ((b.acquire now).1 : Rat) = ((1 - (b.refill now).tokens) * b.spacing).ceil := by
      have hnonneg : 0 ≤ ((1 - (b.refill now).tokens) * b.spacing).ceil :=
        Int.cast_nonneg_iff.1 (hpos.le.trans hceil)
      rw [hwait, ← Int.cast_natCast, Int.toNat_of_nonneg hnonneg]
    rw [hcast, due]
    exact ⟨by linarith, .inr (by linarith)⟩
  · rw [if_neg fun hlt => hdeficit (of_decide_eq_true hlt)] at hwait
    have hnonpos := mul_nonpos_of_nonpos_of_nonneg (not_lt.1 hdeficit) h.spacing_pos.le
    rw [hwait, due, Nat.cast_zero]
    exact ⟨by linarith, .inl rfl⟩

/-! ## One call after another -/

/-- A call, the instant at which its token is there, and the time at which it leaves. -/
structure Departure where
  call : Nat
  due : Rat
  release : Nat

/-- The calls that are made at these times. -/
def departures (b : Bucket Rat) : List Nat → List Departure
  | [] => []
  | now :: later => ⟨now, b.due now, now + (b.acquire now).1⟩ :: (b.acquire now).2.departures later

/-- The call leaves once its token is there, which is at most so long before the call. -/
structure Departure.IsPrompt (credit : Rat) (x : Departure) : Prop where
  made : x.call ≤ x.release
  due : x.due ≤ x.release
  prompt : x.release = x.call ∨ (x.release : Rat) < x.due + 1
  credit : x.call - credit ≤ x.due

/-- Those that leave from `start` to `stop`. -/
def within (b : Bucket Rat) (start stop : Rat) (calls : List Nat) : List Departure :=
  (b.departures calls).filter fun x => start ≤ (x.release : Rat) ∧ (x.release : Rat) ≤ stop

theorem releases_eq_map (b : Bucket Rat) (calls : List Nat) :
    b.releases calls = (b.departures calls).map (·.release) := by
  induction calls generalizing b with
  | nil => rfl
  | cons now later ih => exact congrArg (List.cons _) (ih _)

theorem isPrompt_of_mem_departures {calls : List Nat} (h : b.IsSound)
    (hlast : last ≤ b.refilledAt) (hcalls : (last :: calls).Pairwise (· ≤ ·)) :
    ∀ x ∈ b.departures calls, x.IsPrompt ((b.burst - 1) * b.spacing) := by
  induction calls generalizing b last with
  | nil => exact List.forall_mem_nil _
  | cons now later ih =>
    obtain ⟨hfirst, hlater⟩ := List.pairwise_cons.1 hcalls
    have hnow := hfirst now List.mem_cons_self
    obtain ⟨hsound, hspacing, hburst, hrefilled, -⟩ := acquire_bucket h hlast hnow
    refine List.forall_mem_cons.2 ⟨?_, ?_⟩
    · obtain ⟨hdue, hprompt⟩ := acquire_wait h hlast hnow
      refine ⟨Nat.le_add_right _ _, ?_, ?_, le_due h hlast hnow⟩
      · simpa using hdue
      · simpa using hprompt
    · have := ih hsound hrefilled hlater
      rwa [hspacing, hburst] at this

/-- No token is due before the next one that is left. -/
theorem ready_le_of_mem_departures {calls : List Nat} (h : b.IsSound)
    (hlast : last ≤ b.refilledAt) (hcalls : (last :: calls).Pairwise (· ≤ ·)) :
    ∀ x ∈ b.departures calls, b.ready last ≤ x.due := by
  induction calls generalizing b last with
  | nil => exact List.forall_mem_nil _
  | cons now later ih =>
    obtain ⟨hfirst, hlater⟩ := List.pairwise_cons.1 hcalls
    have hnow := hfirst now List.mem_cons_self
    have hready := ready_le_due h hlast hnow
    obtain ⟨hsound, -, -, hrefilled, hnext⟩ := acquire_bucket h hlast hnow
    refine List.forall_mem_cons.2 ⟨hready, fun x hx => ?_⟩
    have := ih hsound hrefilled hlater x hx
    linarith [h.spacing_pos]

/-- Tokens are due one spacing apart at least. -/
theorem departures_spaced {calls : List Nat} (h : b.IsSound)
    (hlast : last ≤ b.refilledAt) (hcalls : (last :: calls).Pairwise (· ≤ ·)) :
    (b.departures calls).Pairwise fun x y => x.due + b.spacing ≤ y.due := by
  induction calls generalizing b last with
  | nil => exact .nil
  | cons now later ih =>
    obtain ⟨hfirst, hlater⟩ := List.pairwise_cons.1 hcalls
    have hnow := hfirst now List.mem_cons_self
    obtain ⟨hsound, hspacing, -, hrefilled, hnext⟩ := acquire_bucket h hlast hnow
    refine List.pairwise_cons.2 ⟨fun y hy => ?_, ?_⟩
    · exact hnext ▸ ready_le_of_mem_departures hsound hrefilled hlater y hy
    · exact hspacing ▸ ih hsound hrefilled hlater

theorem map_call_departures (b : Bucket Rat) (calls : List Nat) :
    (b.departures calls).map (·.call) = calls := by
  induction calls generalizing b with
  | nil => rfl
  | cons now later ih => exact congrArg (List.cons _) (ih _)

/-! ## Any span of time -/

/-- First come, first released. -/
theorem Departure.IsPrompt.release_le {credit : Rat} {x y : Departure} (hx : x.IsPrompt credit)
    (hy : y.IsPrompt credit) (hcall : x.call ≤ y.call) (hdue : x.due ≤ y.due) :
    x.release ≤ y.release := by
  rcases hx.prompt with hmade | hlt
  · exact hmade ▸ hcall.trans hy.made
  · have hrelease : (x.release : Rat) < (y.release + 1 : Nat) := by
      push_cast
      linarith [hy.due]
    exact Nat.le_of_lt_succ (Nat.cast_lt.1 hrelease)

/-- Among tokens that are due so far apart, some is due so much later than the first. -/
theorem exists_due_of_spaced {gap : Rat} {x : Departure} {xs : List Departure}
    (h : (x :: xs).Pairwise fun x y => x.due + gap ≤ y.due) :
    ∃ y ∈ x :: xs, x.due + xs.length * gap ≤ y.due := by
  induction xs generalizing x with
  | nil => exact ⟨x, List.mem_cons_self, by simp⟩
  | cons z xs ih =>
    obtain ⟨hfirst, hrest⟩ := List.pairwise_cons.1 h
    obtain ⟨y, hy, hdue⟩ := ih hrest
    have hz := hfirst z List.mem_cons_self
    refine ⟨y, List.mem_cons_of_mem _ hy, ?_⟩
    push_cast [List.length_cons]
    linarith

/-- Calls that leave within a span have tokens that are due within it, or so much earlier as a call
may have its token before it is made. -/
theorem length_le_of_span {gap burst start stop : Rat} (hgap : 0 < gap) (hburst : 1 ≤ burst)
    (hspan : start ≤ stop) {xs : List Departure}
    (hspaced : xs.Pairwise fun x y => x.due + gap ≤ y.due)
    (hprompt : ∀ x ∈ xs, x.IsPrompt ((burst - 1) * gap))
    (hwithin : ∀ x ∈ xs, start ≤ x.release ∧ (x.release : Rat) ≤ stop) :
    xs.length ≤ burst + (stop - start + 1) / gap := by
  cases xs with
  | nil =>
    have := div_nonneg (by linarith : (0 : Rat) ≤ stop - start + 1) hgap.le
    push_cast [List.length_nil]
    linarith
  | cons x xs =>
    obtain ⟨y, hy, hlast⟩ := exists_due_of_spaced hspaced
    obtain ⟨-, -, hreleased, hcredit⟩ := hprompt x List.mem_cons_self
    have hstart := (hwithin x List.mem_cons_self).1
    have hstop := (hprompt y hy).due.trans (hwithin y hy).2
    -- The first token is due in the span, less one millisecond, or the call found it there.
    have hfirst : start - 1 - (burst - 1) * gap ≤ x.due := by
      have := mul_nonneg (sub_nonneg.2 hburst) hgap.le
      rcases hreleased with hmade | hlt
      · have : (x.release : Rat) = x.call := congrArg Nat.cast hmade
        linarith
      · linarith
    have hcount : ((xs.length : Rat) + 1 - burst) * gap ≤ stop - start + 1 := by linarith
    have := (le_div_iff₀ hgap).2 hcount
    push_cast [List.length_cons]
    linarith

theorem isSound_ofLimit {limit : Nat} (h : 1 ≤ limit) (start : Nat) :
    (ofLimit limit start : Bucket Rat).IsSound :=
  ⟨Nat.cast_pos.2 h, le_rfl⟩

/-- **A bucket keeps its pace**: calls leave in the order in which they came, and in no span of
milliseconds leave more than the burst and as many as its limit admits in that time. -/
theorem releases_paced (limit start : Nat) (calls : List Nat) (hlimit : 1 ≤ limit)
    (hcalls : calls.Pairwise (· ≤ ·)) :
    ((ofLimit limit start : Bucket Rat).releases calls).Pairwise (· ≤ ·) ∧
      ∀ a b : Rat, a ≤ b →
        (countWithin a b ((ofLimit limit start : Bucket Rat).releases calls) : Rat) ≤
          (max (limit / 60) 1 : Nat) + (b - a + 1) * limit / 60000 := by
  have hsound := isSound_ofLimit hlimit start
  generalize hb : (ofLimit limit start : Bucket Rat) = bucket at hsound
  have hfrom : (0 :: calls).Pairwise (· ≤ ·) :=
    List.pairwise_cons.2 ⟨fun _ _ => Nat.zero_le _, hcalls⟩
  have hspaced := departures_spaced hsound (Nat.zero_le _) hfrom
  have hprompt := isPrompt_of_mem_departures hsound (Nat.zero_le _) hfrom
  rw [releases_eq_map]
  constructor
  · have hmade : (bucket.departures calls).Pairwise fun x y => x.call ≤ y.call := by
      rw [← List.pairwise_map, map_call_departures]
      exact hcalls
    refine List.pairwise_map.2 ((hmade.and hspaced).imp_of_mem fun hx hy h => ?_)
    exact (hprompt _ hx).release_le (hprompt _ hy) h.1 (by linarith [h.2, hsound.spacing_pos])
  · intro a b hspan
    have hburst : bucket.burst = (max (limit / 60) 1 : Nat) := hb ▸ rfl
    have hspacing : bucket.spacing = 60000 / limit := hb ▸ rfl
    have hone : 1 ≤ bucket.burst := hburst ▸ Nat.one_le_cast.2 (le_max_right _ _)
    have hwithin : ∀ x ∈ bucket.within a b calls, a ≤ x.release ∧ (x.release : Rat) ≤ b := by
      intro x hx
      simpa using (List.mem_filter.1 hx).2
    have hlength := length_le_of_span hsound.spacing_pos hone hspan (hspaced.filter _)
      (fun x hx => hprompt x (List.mem_of_mem_filter hx)) hwithin
    rw [countWithin, List.countP_map, List.countP_eq_length_filter]
    rwa [hburst, hspacing, div_div_eq_mul_div] at hlength

/-- Six calls, four of them at once: two find a token, the others leave one by one. -/
theorem releases_paced_burst :
    1 ≤ 120 ∧ [0, 0, 0, 0, 700, 60000].Pairwise (· ≤ ·) ∧
      (ofLimit 120 0 : Bucket Rat).releases [0, 0, 0, 0, 700, 60000] =
        [0, 0, 500, 1000, 1500, 60000] ∧
      [0, 0, 500, 1000, 1500, 60000].Pairwise (· ≤ ·) ∧
      (countWithin 0 500 [0, 0, 500, 1000, 1500, 60000] : Rat) ≤
        (max (120 / 60) 1 : Nat) + (500 - 0 + 1) * (120 : Nat) / 60000 := by
  have hreleases : (ofLimit 120 0 : Bucket Rat).releases [0, 0, 0, 0, 700, 60000] =
      [0, 0, 500, 1000, 1500, 60000] := by decide +kernel
  have hpaced := releases_paced 120 0 [0, 0, 0, 0, 700, 60000] (by decide) (by decide)
  rw [hreleases] at hpaced
  exact ⟨by decide, by decide, hreleases, hpaced.1, hpaced.2 0 500 (by norm_num)⟩

end LeaseQueue.Store.Bucket
