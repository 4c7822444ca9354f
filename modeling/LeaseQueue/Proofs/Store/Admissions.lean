import LeaseQueue.Proofs.Store.Buckets
import Mathlib.Data.List.Induction

/-!
# What limits let through and what they count

A run of calls through limits.  The calls of a day are counted from its first put on, and just the
first ones, as many as the budget of a day allows, pass the bucket by:

  `count = run.countP (·.call.IsPutOn day)`, and a put passes by iff `count ≤ budget`

Totals, waits and sums of waits are those of the run.  Reads leave alone what the puts have to do
with, and would be served just the same if there were no puts and no limits on them.
-/

namespace LeaseQueue.Store

/-- A call that comes to the limits; a put is a write or a creation.  Buckets go by the time, the
budget by the clock. -/
structure Arrival where
  access : Access
  time : Nat
  clock : Millis
deriving DecidableEq, Repr

namespace Arrival

/-- The UTC day, counted from the start of 1970. -/
def day (x : Arrival) : Int := x.clock.toInt.fdiv Throttle.millisPerDay

/-- The calendar reaches to the day. -/
def HasCalendar (x : Arrival) : Prop := Throttle.firstDay ≤ x.day ∧ x.day ≤ Throttle.lastDay

def IsPutOn (day : Int) (x : Arrival) : Prop := x.access = .put ∧ x.day = day

instance (x : Arrival) : Decidable x.HasCalendar := inferInstanceAs (Decidable (_ ∧ _))

instance (day : Int) : DecidablePred (IsPutOn day) := fun _ => inferInstanceAs (Decidable (_ ∧ _))

end Arrival

/-- A call that was let through, and the limits as it met them and as it left them. -/
structure Admission (α : Type) where
  call : Arrival
  before : Throttle α
  wait : Nat
  after : Throttle α

namespace Limits

/-- There is a budget for a day, and so many puts are within it. -/
def Grants (l : Limits) (count : Nat) : Prop := ∃ budget ∈ l.daily?, count ≤ budget

/-- There is a budget for a day, and so many puts are more than it allows. -/
def Denies (l : Limits) (count : Nat) : Prop := ∃ budget ∈ l.daily?, budget < count

theorem grants_iff (l : Limits) (count : Nat) : l.Grants count ↔ l.daily?.any (count ≤ ·) := by
  simp [Grants, Option.any_eq_true]

theorem denies_iff (l : Limits) (count : Nat) : l.Denies count ↔ l.daily?.any (· < count) := by
  simp [Denies, Option.any_eq_true]

theorem grants_of_mem {l : Limits} {budget : Nat} (h : budget ∈ l.daily?) (count : Nat) :
    l.Grants count ↔ count ≤ budget := by
  rw [grants_iff, Option.mem_def.1 h, Option.any_some, decide_eq_true_eq]

instance (l : Limits) (count : Nat) : Decidable (l.Grants count) :=
  decidable_of_iff _ (l.grants_iff count).symm

instance (l : Limits) (count : Nat) : Decidable (l.Denies count) :=
  decidable_of_iff _ (l.denies_iff count).symm

/-- The same limits on reads, and none on puts. -/
def readsOnly (l : Limits) : Limits :=
  { l with writesPerMinute := .none, writesPerDay := .none }

end Limits

namespace ThrottleStats

/-- How many calls there were. -/
def total (s : ThrottleStats) : Access → Nat
  | .read => s.totalReads
  | .put => s.totalWrites

/-- How many of them had to wait. -/
def throttled (s : ThrottleStats) : Access → Nat
  | .read => s.throttledReads
  | .put => s.throttledWrites

/-- How long they had to wait, taken together. -/
def delay (s : ThrottleStats) : Access → Nat
  | .read => s.totalReadDelay
  | .put => s.totalWriteDelay

end ThrottleStats

namespace Throttle

variable {α : Type}

/-- All that puts have to do with. -/
def withoutReads (t : Throttle α) : Throttle α := { t with
  reads := none
  stats := { t.stats with totalReads := 0, throttledReads := 0, totalReadDelay := 0 } }

/-- All that reads have to do with. -/
def withoutPuts (t : Throttle α) : Throttle α where
  reads := t.reads
  writes := none
  budget := none
  day := none
  stats := ⟨t.stats.totalReads, 0, t.stats.throttledReads, 0, t.stats.totalReadDelay, 0, 0, false⟩

variable [Level α]

def serve (t : Throttle α) (x : Arrival) : Admission α :=
  let (wait, after) := t.meter x.access x.time x.clock
  ⟨x, t, wait, after⟩

/-- Lets calls through, one after another. -/
def serveAll (t : Throttle α) : List Arrival → List (Admission α)
  | [] => []
  | x :: later => t.serve x :: (t.serve x).after.serveAll later

/-- The limits after calls. -/
def past (t : Throttle α) (xs : List Arrival) : Throttle α :=
  xs.foldl (fun t x => (t.serve x).after) t

end Throttle

namespace Admission

variable {α : Type}

def IsOf (access : Access) (a : Admission α) : Prop := a.call.access = access

instance (access : Access) : DecidablePred (IsOf (α := α) access) :=
  fun _ => inferInstanceAs (Decidable (_ = _))

/-- The bucket is left as it was, and the call does not wait. -/
def PassesBy (a : Admission α) : Prop := a.wait = 0 ∧ a.after.writes = a.before.writes

/-- The call takes a token from the bucket, if there is one. -/
def Draws [Level α] (a : Admission α) : Prop :=
  (a.wait, a.after.writes) = Throttle.draw a.before.writes a.call.time

/-- The admission of a read, as far as it is about reads. -/
def withoutPuts (a : Admission α) : Admission α :=
  ⟨a.call, a.before.withoutPuts, a.wait, a.after.withoutPuts⟩

end Admission

/-- Calls through limits that are new at the start. -/
def Limits.run (α : Type) [Level α] (l : Limits) (start : Nat) (xs : List Arrival) :
    List (Admission α) := (Throttle.ofLimits l start).serveAll xs

/-- What is told of a run of calls through limits. -/
structure Accounts (α : Type) [Level α] (l : Limits) (start : Nat) (xs : List Arrival) : Prop where
  /-- Puts are counted by days. -/
  counted : ∀ earlier a later, l.run α start xs = earlier ++ a :: later → a.IsOf .put →
    a.after.stats.dailyWriteCount = (earlier ++ [a]).countP (·.call.IsPutOn a.call.day)
  /-- While the count is within the budget puts pass by, and otherwise they do not. -/
  metered : ∀ a ∈ l.run α start xs, a.IsOf .put →
    if l.Grants a.after.stats.dailyWriteCount then a.PassesBy else a.Draws
  exceeded : ∀ a ∈ l.run α start xs, a.IsOf .put →
    (a.after.stats.dailyBudgetExceeded ↔ l.Denies a.after.stats.dailyWriteCount)
  /-- Of the puts of a day the first ones pass by, as many as the budget allows, -/
  first : ∀ budget ∈ l.daily?, ∀ day,
    ∀ a ∈ ((l.run α start xs).filter (·.call.IsPutOn day)).take budget, a.PassesBy
  /-- and the others do not. -/
  others : ∀ budget ∈ l.daily?, ∀ day,
    ∀ a ∈ ((l.run α start xs).filter (·.call.IsPutOn day)).drop budget, a.Draws
  total : ∀ access, ((Throttle.ofLimits l start : Throttle α).past xs).stats.total access =
    (l.run α start xs).countP (·.IsOf access)
  throttled : ∀ access, ((Throttle.ofLimits l start : Throttle α).past xs).stats.throttled access =
    (l.run α start xs).countP fun a => a.IsOf access ∧ a.wait ≠ 0
  delay : ∀ access, ((Throttle.ofLimits l start : Throttle α).past xs).stats.delay access =
    (((l.run α start xs).filter (·.IsOf access)).map (·.wait)).sum
  /-- A read leaves alone all that puts have to do with. -/
  harmless : ∀ a ∈ l.run α start xs, a.IsOf .read →
    a.after.withoutReads = a.before.withoutReads
  /-- Reads would be served just the same if there were no puts, and no limits on them. -/
  independent : ((l.run α start xs).filter (·.IsOf .read)).map Admission.withoutPuts =
    l.readsOnly.run α start (xs.filter (·.access = .read))

namespace Throttle

variable {α : Type} {t : Throttle α} {x : Arrival} {xs : List Arrival} {l : Limits}

/-! ## One put -/

/-- The puts counted so far on a day that is not over. -/
def countOn (t : Throttle α) (day : Int) : Nat :=
  if t.day = some day then t.stats.dailyWriteCount else 0

theorem utcDay_clock (h : x.HasCalendar) : utcDay x.clock = x.day := if_pos h

theorem countWrite_eq (t : Throttle α) (day : Int) : t.countWrite day =
    (t.budget.any (t.countOn day + 1 ≤ ·), { t with
      day := some day
      stats := { t.stats with
        dailyWriteCount := t.countOn day + 1
        dailyBudgetExceeded := (decide (t.day = some day) && t.stats.dailyBudgetExceeded) ||
          t.budget.any (· < t.countOn day + 1) } }) := by
  unfold countWrite countOn
  split
  next h => simp [h]
  next h => simp [h]

variable [Level α]

/-- After these calls the puts of the days that are not over have been counted. -/
structure Tallied (l : Limits) (xs : List Arrival) (t : Throttle α) : Prop where
  budget : t.budget = l.daily?
  count : ∀ day, (∀ x ∈ xs, x.access = .put → x.day ≤ day) →
    t.countOn day = xs.countP (·.IsPutOn day)
  exceeded : t.stats.dailyBudgetExceeded → l.Denies t.stats.dailyWriteCount

/-- What becomes of the count of a day when a put comes, and how the put is served. -/
theorem Tallied.serve_put (h : t.Tallied l xs) (hput : x.access = .put) (hday : x.HasCalendar) :
    (t.serve x).after.day = some x.day ∧
      (t.serve x).after.stats.dailyWriteCount = t.countOn x.day + 1 ∧
      ((t.serve x).after.stats.dailyBudgetExceeded ↔ l.Denies (t.countOn x.day + 1)) ∧
      if l.Grants (t.countOn x.day + 1) then (t.serve x).PassesBy else (t.serve x).Draws := by
  obtain ⟨access, time, clock⟩ := x
  cases hput
  have hutc := utcDay_clock hday
  refine ⟨?_, ?_, ?_, ?_⟩
  · simp only [serve, meter, meterWrite, countWrite_eq, hutc]
  · simp only [serve, meter, meterWrite, countWrite_eq, hutc]
  · have hmore : t.day = some (Arrival.day ⟨.put, time, clock⟩) → t.stats.dailyBudgetExceeded →
        l.Denies (t.countOn (Arrival.day ⟨.put, time, clock⟩) + 1) := by
      intro hsame hexceeded
      obtain ⟨budget, hbudget, hlt⟩ := h.exceeded hexceeded
      rw [countOn, if_pos hsame]
      exact ⟨budget, hbudget, Nat.lt_succ_of_lt hlt⟩
    simp only [serve, meter, meterWrite, countWrite_eq, hutc, h.budget, Bool.or_eq_true,
      Bool.and_eq_true, decide_eq_true_eq, ← Limits.denies_iff]
    exact ⟨fun hor => hor.elim (fun hand => hmore hand.1 hand.2) id, .inr⟩
  · split
    next hgrants =>
      have hany := (l.grants_iff _).1 hgrants
      simp only [Admission.PassesBy, serve, meter, meterWrite, countWrite_eq, hutc, h.budget, hany,
        if_true, and_self]
    next hgrants =>
      have hany := mt (l.grants_iff _).2 hgrants
      simp only [Admission.Draws, serve, meter, meterWrite, countWrite_eq, hutc, h.budget, hany,
        Bool.false_eq_true, if_false]

theorem Tallied.read (h : t.Tallied l xs) (hread : x.access = .read) :
    (t.serve x).after.Tallied l (xs ++ [x]) := by
  obtain ⟨access, time, clock⟩ := x
  cases hread
  refine ⟨h.budget, fun day hdays => ?_, h.exceeded⟩
  rw [List.countP_append]
  exact h.count day fun x hx => hdays x (List.mem_append_left _ hx)

theorem Tallied.put (h : t.Tallied l xs) (hput : x.access = .put) (hday : x.HasCalendar)
    (hlast : ∀ y ∈ xs, y.access = .put → y.day ≤ x.day) :
    (t.serve x).after.Tallied l (xs ++ [x]) := by
  obtain ⟨hafter, hcount, hexceeded, -⟩ := h.serve_put hput hday
  refine ⟨?_, fun day hdays => ?_, fun hset => hcount ▸ hexceeded.1 hset⟩
  · obtain ⟨access, time, clock⟩ := x
    cases hput
    simp only [serve, meter, meterWrite, countWrite_eq, h.budget]
  · have hle : x.day ≤ day := hdays x (by simp) hput
    rw [countOn, hafter, hcount, h.count x.day hlast, List.countP_append]
    by_cases heq : x.day = day
    · have hone : [x].countP (·.IsPutOn day) = 1 := by simp [Arrival.IsPutOn, hput, heq]
      rw [if_pos (congrArg some heq), hone, heq]
    · -- The day is a later one, on which nobody has put anything yet.
      have hnone : [x].countP (·.IsPutOn day) = 0 := by simp [Arrival.IsPutOn, heq]
      have hearlier : xs.countP (·.IsPutOn day) = 0 := by
        refine List.countP_eq_zero.2 fun y hy hon => ?_
        obtain ⟨hyput, rfl⟩ := of_decide_eq_true hon
        exact heq (le_antisymm hle (hlast y hy hyput))
      rw [if_neg fun hsome => heq (Option.some.inj hsome), hnone, hearlier]

/-! ## Runs -/

theorem serveAll_append (t : Throttle α) (xs ys : List Arrival) :
    t.serveAll (xs ++ ys) = t.serveAll xs ++ (t.past xs).serveAll ys := by
  induction xs generalizing t with
  | nil => rfl
  | cons x xs ih => exact congrArg (List.cons _) (ih _)

theorem past_snoc (t : Throttle α) (xs : List Arrival) (x : Arrival) :
    t.past (xs ++ [x]) = ((t.past xs).serve x).after := by
  rw [past, List.foldl_append]
  rfl

theorem map_call_serveAll (t : Throttle α) (xs : List Arrival) :
    (t.serveAll xs).map (·.call) = xs := by
  induction xs generalizing t with
  | nil => rfl
  | cons x xs ih => exact congrArg (List.cons x) (ih _)

/-- Each admission follows after those of the calls before it. -/
theorem exists_of_serveAll_eq_append {earlier later : List (Admission α)} {a : Admission α}
    (h : t.serveAll xs = earlier ++ a :: later) :
    ∃ ys zs, xs = ys ++ a.call :: zs ∧ earlier = t.serveAll ys ∧ a = (t.past ys).serve a.call := by
  induction earlier generalizing t xs with
  | nil =>
    cases xs with
    | nil => cases h
    | cons x xs =>
      obtain ⟨rfl, -⟩ := List.cons.inj h
      exact ⟨[], xs, rfl, rfl, rfl⟩
  | cons b earlier ih =>
    cases xs with
    | nil => cases h
    | cons x xs =>
      obtain ⟨rfl, hrest⟩ := List.cons.inj h
      obtain ⟨ys, zs, rfl, rfl, ha⟩ := ih hrest
      exact ⟨x :: ys, zs, rfl, rfl, ha⟩

theorem exists_of_mem_serveAll {a : Admission α} (h : a ∈ t.serveAll xs) :
    ∃ ys zs, xs = ys ++ a.call :: zs ∧ a = (t.past ys).serve a.call := by
  obtain ⟨earlier, later, hsplit⟩ := List.append_of_mem h
  obtain ⟨ys, zs, hxs, -, ha⟩ := exists_of_serveAll_eq_append hsplit
  exact ⟨ys, zs, hxs, ha⟩

end Throttle

/-- The clock never goes back from one put to the next, and stays in the calendar. -/
structure IsTimely (xs : List Arrival) : Prop where
  clock : (xs.filter (·.access = .put)).Pairwise (·.clock ≤ ·.clock)
  calendar : ∀ x ∈ xs, x.access = .put → x.HasCalendar

theorem Arrival.day_le {x y : Arrival} (h : x.clock ≤ y.clock) : x.day ≤ y.day := by
  have hpos : (0 : Int) < Throttle.millisPerDay := by decide
  rw [day, day, Int.fdiv_eq_ediv_of_nonneg _ hpos.le, Int.fdiv_eq_ediv_of_nonneg _ hpos.le]
  exact Int.ediv_le_ediv hpos (Int64.le_iff_toInt_le.1 h)

theorem IsTimely.of_append {xs ys : List Arrival} (h : IsTimely (xs ++ ys)) : IsTimely xs where
  clock := (List.pairwise_append.1 (List.filter_append .. ▸ h.clock)).1
  calendar x hx := h.calendar x (List.mem_append_left _ hx)

/-- No put before falls on a later day. -/
theorem IsTimely.day_le {xs : List Arrival} {x : Arrival} (h : IsTimely (xs ++ [x]))
    (hput : x.access = .put) : ∀ y ∈ xs, y.access = .put → y.day ≤ x.day := by
  intro y hy hyput
  have hpair := List.pairwise_append.1 (List.filter_append .. ▸ h.clock)
  refine Arrival.day_le (hpair.2.2 y (List.mem_filter.2 ⟨hy, by simpa⟩) x ?_)
  exact List.mem_filter.2 ⟨List.mem_singleton.2 rfl, by simpa⟩

namespace Throttle

variable {α : Type} [Level α] {t : Throttle α} {x : Arrival} {xs : List Arrival} {l : Limits}

theorem tallied_past (start : Nat) (h : IsTimely xs) :
    ((ofLimits l start : Throttle α).past xs).Tallied l xs := by
  induction xs using List.reverseRecOn with
  | nil => exact ⟨rfl, fun day _ => rfl, fun h => absurd h Bool.false_ne_true⟩
  | append_singleton xs x ih =>
    rw [past_snoc]
    cases haccess : x.access with
    | read => exact (ih h.of_append).read haccess
    | put => exact (ih h.of_append).put haccess (h.calendar x (by simp) haccess) (h.day_le haccess)

/-! ## Totals -/

theorem serve_total (t : Throttle α) (x : Arrival) (access : Access) :
    (t.serve x).after.stats.total access =
      t.stats.total access + if (t.serve x).IsOf access then 1 else 0 := by
  obtain ⟨accessed, time, clock⟩ := x
  cases accessed <;> cases access <;>
    simp [serve, meter, meterRead, meterWrite, countWrite_eq, ThrottleStats.total, Admission.IsOf]

theorem serve_throttled (t : Throttle α) (x : Arrival) (access : Access) :
    (t.serve x).after.stats.throttled access = t.stats.throttled access +
      if (t.serve x).IsOf access ∧ (t.serve x).wait ≠ 0 then 1 else 0 := by
  obtain ⟨accessed, time, clock⟩ := x
  cases accessed <;> cases access <;>
    simp [serve, meter, meterRead, meterWrite, countWrite_eq, ThrottleStats.throttled,
      Admission.IsOf]

theorem serve_delay (t : Throttle α) (x : Arrival) (access : Access) :
    (t.serve x).after.stats.delay access = t.stats.delay access +
      if (t.serve x).IsOf access then (t.serve x).wait else 0 := by
  obtain ⟨accessed, time, clock⟩ := x
  cases accessed <;> cases access <;>
    simp [serve, meter, meterRead, meterWrite, countWrite_eq, ThrottleStats.delay, Admission.IsOf]

/-- What every call of some kind adds one to is their number. -/
theorem count_past {f : ThrottleStats → Nat} {p : Admission α → Prop} [DecidablePred p]
    (hstart : f ⟨0, 0, 0, 0, 0, 0, 0, false⟩ = 0)
    (hserve : ∀ (t : Throttle α) (x : Arrival),
      f (t.serve x).after.stats = f t.stats + if p (t.serve x) then 1 else 0)
    (l : Limits) (start : Nat) (xs : List Arrival) :
    f ((ofLimits l start : Throttle α).past xs).stats = (l.run α start xs).countP (p ·) := by
  induction xs using List.reverseRecOn with
  | nil => exact hstart
  | append_singleton xs x ih =>
    rw [past_snoc, hserve, ih, Limits.run, Limits.run, serveAll_append, List.countP_append]
    simp [serveAll, List.countP_cons]

theorem total_past (l : Limits) (start : Nat) (xs : List Arrival) (access : Access) :
    ((ofLimits l start : Throttle α).past xs).stats.total access =
      (l.run α start xs).countP (·.IsOf access) :=
  count_past (f := (·.total access)) (by cases access <;> rfl)
    (fun t x => t.serve_total x access) l start xs

theorem throttled_past (l : Limits) (start : Nat) (xs : List Arrival) (access : Access) :
    ((ofLimits l start : Throttle α).past xs).stats.throttled access =
      (l.run α start xs).countP fun a => a.IsOf access ∧ a.wait ≠ 0 :=
  count_past (f := (·.throttled access)) (by cases access <;> rfl)
    (fun t x => t.serve_throttled x access) l start xs

theorem delay_past (l : Limits) (start : Nat) (xs : List Arrival) (access : Access) :
    ((ofLimits l start : Throttle α).past xs).stats.delay access =
      (((l.run α start xs).filter (·.IsOf access)).map (·.wait)).sum := by
  induction xs using List.reverseRecOn with
  | nil => cases access <;> rfl
  | append_singleton xs x ih =>
    rw [past_snoc, serve_delay, ih, Limits.run, Limits.run, serveAll_append, List.filter_append,
      List.map_append, List.sum_append]
    simp only [serveAll, List.filter_cons, List.filter_nil, decide_eq_true_eq]
    split <;> simp

/-! ## Reads apart -/

theorem withoutReads_serve (hread : x.access = .read) :
    (t.serve x).after.withoutReads = t.withoutReads := by
  obtain ⟨access, time, clock⟩ := x
  cases hread
  rfl

theorem withoutPuts_serve_read (hread : x.access = .read) :
    (t.serve x).withoutPuts = t.withoutPuts.serve x := by
  obtain ⟨access, time, clock⟩ := x
  cases hread
  rfl

theorem withoutPuts_serve_put (hput : x.access = .put) :
    (t.serve x).after.withoutPuts = t.withoutPuts := by
  obtain ⟨access, time, clock⟩ := x
  cases hput
  simp only [serve, meter, meterWrite, countWrite_eq, withoutPuts]

theorem withoutPuts_serveAll (t : Throttle α) (xs : List Arrival) :
    ((t.serveAll xs).filter (·.IsOf .read)).map Admission.withoutPuts =
      t.withoutPuts.serveAll (xs.filter (·.access = .read)) := by
  induction xs generalizing t with
  | nil => rfl
  | cons x xs ih =>
    cases haccess : x.access with
    | read =>
      have hof : (t.serve x).IsOf .read := haccess
      have hafter : (t.serve x).after.withoutPuts = (t.withoutPuts.serve x).after :=
        congrArg Admission.after (withoutPuts_serve_read haccess)
      rw [serveAll, List.filter_cons_of_pos (by simpa), List.filter_cons_of_pos (by simpa),
        List.map_cons, ih, withoutPuts_serve_read haccess, hafter, serveAll]
    | put =>
      have hof : ¬ (t.serve x).IsOf .read := fun h => nomatch haccess.symm.trans h
      rw [serveAll, List.filter_cons_of_neg (by simpa), List.filter_cons_of_neg (by simp [haccess]),
        ih, withoutPuts_serve_put haccess]

end Throttle

/-! ## Accounts -/

namespace Limits

variable {α : Type} [Level α] {l : Limits} {start : Nat} {xs : List Arrival} {a : Admission α}
  {earlier later : List (Admission α)}

/-- What is known of a put in a run. -/
theorem run_put (h : IsTimely xs) (hrun : l.run α start xs = earlier ++ a :: later)
    (hput : a.IsOf .put) :
    a.after.stats.dailyWriteCount = (earlier ++ [a]).countP (·.call.IsPutOn a.call.day) ∧
      (a.after.stats.dailyBudgetExceeded ↔ l.Denies a.after.stats.dailyWriteCount) ∧
      if l.Grants a.after.stats.dailyWriteCount then a.PassesBy else a.Draws := by
  obtain ⟨ys, zs, hxs, rfl, ha⟩ := Throttle.exists_of_serveAll_eq_append hrun
  have hupto : IsTimely (ys ++ [a.call]) := by
    rw [hxs, List.append_cons] at h
    exact h.of_append
  have hcalendar := hupto.calendar a.call (by simp) hput
  have htallied := Throttle.tallied_past (α := α) (l := l) start hupto.of_append
  obtain ⟨-, hcount, hexceeded, hmetered⟩ := htallied.serve_put hput hcalendar
  rw [← ha] at hcount hexceeded hmetered
  rw [← hcount] at hexceeded hmetered
  refine ⟨?_, hexceeded, hmetered⟩
  have hmap : ys.countP (·.IsPutOn a.call.day) =
      ((Throttle.ofLimits l start : Throttle α).serveAll ys).countP
        (·.call.IsPutOn a.call.day) := by
    conv_lhs => rw [← Throttle.map_call_serveAll (Throttle.ofLimits l start : Throttle α) ys]
    exact List.countP_map
  have hself : [a].countP (·.call.IsPutOn a.call.day) = 1 := by
    have haccess : a.call.access = .put := hput
    simp [Arrival.IsPutOn, haccess]
  rw [hcount, htallied.count _ (hupto.day_le hput), List.countP_append, hself, hmap]

/-- The puts of a day are counted one by one. -/
theorem run_putOn (h : IsTimely xs) {day : Int}
    (hputs : (l.run α start xs).filter (·.call.IsPutOn day) = earlier ++ a :: later) :
    if l.Grants (earlier.length + 1) then a.PassesBy else a.Draws := by
  obtain ⟨first, rest, hrun, hfirst, hrest⟩ := List.filter_eq_append_iff.1 hputs
  obtain ⟨between, last, rfl, hbetween, hon, -⟩ := List.filter_eq_cons_iff.1 hrest
  obtain ⟨hput, rfl⟩ := of_decide_eq_true hon
  rw [← List.append_assoc] at hrun
  obtain ⟨hcount, -, hmetered⟩ := run_put h hrun hput
  have hnone : between.countP (·.call.IsPutOn a.call.day) = 0 := List.countP_eq_zero.2 hbetween
  have hearlier : first.countP (·.call.IsPutOn a.call.day) = earlier.length := by
    rw [List.countP_eq_length_filter, hfirst]
  have hself : [a].countP (·.call.IsPutOn a.call.day) = 1 :=
    List.countP_singleton.trans (if_pos hon)
  rw [List.countP_append, List.countP_append, hearlier, hnone, hself, Nat.add_zero] at hcount
  rwa [hcount] at hmetered

/-- As many puts of a day as the budget allows. -/
theorem passesBy_of_mem_take (h : IsTimely xs) {budget : Nat} (hbudget : budget ∈ l.daily?)
    {day : Int} (ha : a ∈ ((l.run α start xs).filter (·.call.IsPutOn day)).take budget) :
    a.PassesBy := by
  obtain ⟨earlier, later, htake⟩ := List.append_of_mem ha
  have hputs := List.take_append_drop budget ((l.run α start xs).filter (·.call.IsPutOn day))
  have hlength := List.length_take_le budget ((l.run α start xs).filter (·.call.IsPutOn day))
  rw [htake, List.append_assoc, List.cons_append] at hputs
  rw [htake, List.length_append, List.length_cons] at hlength
  have hmetered := run_putOn h hputs.symm
  rwa [if_pos ((grants_of_mem hbudget _).2 (by omega))] at hmetered

/-- The puts of a day after those. -/
theorem draws_of_mem_drop (h : IsTimely xs) {budget : Nat} (hbudget : budget ∈ l.daily?)
    {day : Int} (ha : a ∈ ((l.run α start xs).filter (·.call.IsPutOn day)).drop budget) :
    a.Draws := by
  obtain ⟨earlier, later, hdrop⟩ := List.append_of_mem ha
  have hputs := List.take_append_drop budget ((l.run α start xs).filter (·.call.IsPutOn day))
  have hlength : budget ≤ ((l.run α start xs).filter (·.call.IsPutOn day)).length := by
    by_contra hlt
    rw [List.drop_eq_nil_of_le (by omega)] at ha
    cases ha
  rw [hdrop, ← List.append_assoc] at hputs
  have hmetered := run_putOn h hputs.symm
  rwa [List.length_append, List.length_take_of_le hlength,
    if_neg fun hgrants => absurd ((grants_of_mem hbudget _).1 hgrants) (by omega)] at hmetered

theorem accounts (h : IsTimely xs) : Accounts α l start xs where
  counted _ _ _ hrun hput := (run_put h hrun hput).1
  metered a ha hput := by
    obtain ⟨earlier, later, hrun⟩ := List.append_of_mem ha
    exact (run_put h hrun hput).2.2
  exceeded a ha hput := by
    obtain ⟨earlier, later, hrun⟩ := List.append_of_mem ha
    exact (run_put h hrun hput).2.1
  first _ hbudget _ _ ha := passesBy_of_mem_take h hbudget ha
  others _ hbudget _ _ ha := draws_of_mem_drop h hbudget ha
  total := Throttle.total_past l start xs
  throttled := Throttle.throttled_past l start xs
  delay := Throttle.delay_past l start xs
  harmless a ha hread := by
    obtain ⟨ys, zs, -, ha⟩ := Throttle.exists_of_mem_serveAll ha
    rw [ha]
    exact Throttle.withoutReads_serve hread
  independent := Throttle.withoutPuts_serveAll _ xs

end Limits

/-! ## Buckets of fractions -/

/-- A call that takes a token leaves its trace in the bucket. -/
theorem Bucket.acquire_ne (b : Bucket Rat) (now : Nat) : (b.acquire now).2 ≠ b := by
  intro hsame
  rcases Nat.lt_or_ge b.refilledAt now with hlt | hge
  · have hrefilled : (b.acquire now).2.refilledAt = now := by
      show (b.refill now).refilledAt = now
      rw [refill_of_lt hlt]
    rw [hsame] at hrefilled
    exact hlt.ne hrefilled
  · have htokens : (b.acquire now).2.tokens = b.tokens - 1 := by
      show (b.refill now).tokens - 1 = b.tokens - 1
      rw [refill_of_le hge]
    rw [hsame] at htokens
    linarith

theorem Admission.Draws.writes_ne {a : Admission Rat} (h : a.Draws) {b : Bucket Rat}
    (hb : a.before.writes = some b) : a.after.writes ≠ some b := by
  intro hsame
  have hwrites : a.after.writes = (Throttle.draw a.before.writes a.call.time).2 :=
    congrArg Prod.snd h
  rw [hb, hsame] at hwrites
  exact b.acquire_ne a.call.time (Option.some.inj hwrites).symm

/-- **Limits keep their accounts**: puts are counted by days, and just those within the budget of
their day pass the bucket by; totals are those of the calls, and reads have nothing to do with
it. -/
theorem accounts_of_timely (l : Limits) (start : Nat) (xs : List Arrival) (h : IsTimely xs) :
    (∀ (α : Type) [Level α], Accounts α l start xs) ∧
      ∀ a ∈ l.run Rat start xs, a.IsOf .put → ∀ b, a.before.writes = some b →
        (a.after.writes = some b ↔ l.Grants a.after.stats.dailyWriteCount) := by
  refine ⟨fun α _ => Limits.accounts h, fun a ha hput b hb => ?_⟩
  have hmetered := (Limits.accounts h).metered a ha hput
  split at hmetered
  next hgrants => exact iff_of_true (hmetered.2.trans hb) hgrants
  next hgrants => exact iff_of_false (hmetered.writes_ne hb) hgrants

/-- Four puts on the last day of 1969, a read among them, and one on the day after. -/
def newYear : List Arrival :=
  [⟨.put, 0, -5⟩, ⟨.put, 0, -5⟩, ⟨.put, 0, -1⟩, ⟨.read, 0, 7⟩, ⟨.put, 0, -1⟩, ⟨.put, 0, 0⟩]

theorem accounts_newYear :
    IsTimely newYear ∧ Accounts Rat ⟨some 60, some 60, some 2⟩ 0 newYear ∧
      (Limits.run Rat ⟨some 60, some 60, some 2⟩ 0 newYear).map
        (fun a => (a.wait, a.after.stats.dailyWriteCount, a.after.stats.dailyBudgetExceeded)) =
        [(0, 1, false), (0, 2, false), (0, 3, true), (0, 3, true), (1000, 4, true),
          (0, 1, false)] := by
  have htimely : IsTimely newYear := ⟨by decide, by decide⟩
  exact ⟨htimely, (accounts_of_timely _ 0 newYear htimely).1 Rat, by decide +kernel⟩

end LeaseQueue.Store
