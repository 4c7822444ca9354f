import LeaseQueue.Queue.Job
import LeaseQueue.Store.Basic

/-!
# Limits on storage calls

Reads and writes draw tokens from a bucket each.  A bucket is refilled evenly, up to a burst; a call
that finds no token reserves one at once and waits until it will be there, so that calls leave in the
order in which they came.

Writes may have a budget for each UTC day besides.  As long as it lasts they pass without a token;
afterwards they draw from the bucket for the rest of the day.

The level of a bucket is a number of any kind that has the arithmetic of `Level`.
-/

namespace LeaseQueue.Store

/-! ## Numbers for levels -/

class Level (α : Type) extends Add α, Sub α, Mul α, Div α where
  ofNat : Nat → α
  /-- A span of time, counted in milliseconds. -/
  ofMillis : Nat → α
  isLess : α → α → Bool
  /-- The least natural number that is not less. -/
  ceil : α → Nat

instance : Level Float where
  ofNat := Float.ofNat
  ofMillis ms := (Float.ofNat (ms / 1000) + Float.ofNat (ms % 1000 * 1000000) / 1e9) * 1000
  isLess a b := a < b
  ceil f := f.ceil.toUInt64.toNat

instance : Level Rat where
  ofNat n := n
  ofMillis ms := ms
  isLess a b := a < b
  ceil r := r.ceil.toNat

/-! ## Buckets -/

structure Bucket (α : Type) where
  tokens : α
  burst : α
  perMinute : α
  /-- When the tokens were last brought up to date. -/
  refilledAt : Nat

namespace Bucket

variable {α : Type} [Level α]

/-- A full bucket for so many calls a minute; it holds what comes in a second, and at least one. -/
def ofLimit (limit : Nat) (now : Nat) : Bucket α :=
  let burst := Level.ofNat (max (limit / 60) 1)
  ⟨burst, burst, Level.ofNat limit, now⟩

def refill (b : Bucket α) (now : Nat) : Bucket α :=
  let elapsed : α := Level.ofMillis (now - b.refilledAt)
  if Level.isLess (Level.ofNat 0) elapsed then
    let level := b.tokens + elapsed * b.perMinute / Level.ofNat 60000
    { b with
      tokens := if Level.isLess level b.burst then level else b.burst
      refilledAt := now }
  else b

/-- Takes a token; gives the milliseconds until it is there. -/
def acquire (b : Bucket α) (now : Nat) : Nat × Bucket α :=
  let b := b.refill now
  let deficit := Level.ofNat 1 - b.tokens
  let wait :=
    if Level.isLess (Level.ofNat 0) deficit then
      Level.ceil (deficit * Level.ofNat 60000 / b.perMinute)
    else 0
  (wait, { b with tokens := b.tokens - Level.ofNat 1 })

end Bucket

/-! ## Limits and what came of them -/

/-- No limit and a limit of zero both let everything through. -/
structure Limits where
  readsPerMinute : Option UInt32
  writesPerMinute : Option UInt32
  writesPerDay : Option UInt64
deriving DecidableEq, Repr

def Limits.none : Limits := ⟨.none, .none, .none⟩

/-- A limit that says something. -/
def positive (limit : Option Nat) : Option Nat := limit.filter (0 < ·)

namespace Limits

def reads? (l : Limits) : Option Nat := positive (l.readsPerMinute.map UInt32.toNat)
def writes? (l : Limits) : Option Nat := positive (l.writesPerMinute.map UInt32.toNat)
def daily? (l : Limits) : Option Nat := positive (l.writesPerDay.map UInt64.toNat)

def isUnlimited (l : Limits) : Bool := l.reads?.isNone && l.writes?.isNone && l.daily?.isNone

end Limits

structure ThrottleStats where
  totalReads : Nat
  totalWrites : Nat
  throttledReads : Nat
  throttledWrites : Nat
  totalReadDelay : Nat
  totalWriteDelay : Nat
  /-- Writes counted on the current day. -/
  dailyWriteCount : Nat
  dailyBudgetExceeded : Bool
deriving DecidableEq, Repr

structure Throttle (α : Type) where
  reads : Option (Bucket α)
  writes : Option (Bucket α)
  budget : Option Nat
  /-- The day of the last write. -/
  day : Option Int
  stats : ThrottleStats

namespace Throttle

variable {α : Type} [Level α]

def ofLimits (l : Limits) (now : Nat) : Throttle α where
  reads := l.reads?.map (Bucket.ofLimit · now)
  writes := l.writes?.map (Bucket.ofLimit · now)
  budget := l.daily?
  day := none
  stats := ⟨0, 0, 0, 0, 0, 0, 0, false⟩

def millisPerDay : Int := 86400000

/-- Days before and after which there is no calendar. -/
def firstDay : Int := -96465292
def lastDay : Int := 95026236

/-- The UTC day, counted from the start of 1970; times without a calendar fall on that day. -/
def utcDay (clock : Millis) : Int :=
  let day := clock.toInt.fdiv millisPerDay
  if firstDay ≤ day ∧ day ≤ lastDay then day else 0

/-- A wait from a bucket that may be missing. -/
def draw (b : Option (Bucket α)) (now : Nat) : Nat × Option (Bucket α) :=
  match b with
  | none => (0, none)
  | some b =>
    let (wait, b) := b.acquire now
    (wait, some b)

/-- Admits a read at time `now`; gives how long it has to wait. -/
def meterRead (t : Throttle α) (now : Nat) : Nat × Throttle α :=
  let (wait, reads) := draw t.reads now
  let s := t.stats
  (wait, { t with
    reads
    stats := { s with
      totalReads := s.totalReads + 1
      throttledReads := s.throttledReads + if wait = 0 then 0 else 1
      totalReadDelay := s.totalReadDelay + wait } })

/-- Counts a write on a day; whether it is within the budget comes with it. -/
def countWrite (t : Throttle α) (day : Int) : Bool × Throttle α :=
  let s := t.stats
  let (count, exceeded) :=
    if t.day = some day then (s.dailyWriteCount + 1, s.dailyBudgetExceeded) else (1, false)
  let within := t.budget.any (count ≤ ·)
  let exceeded := exceeded || t.budget.any (· < count)
  (within, { t with
    day := some day
    stats := { s with dailyWriteCount := count, dailyBudgetExceeded := exceeded } })

/-- Admits a write at time `now`, on the day that the clock shows. -/
def meterWrite (t : Throttle α) (now : Nat) (clock : Millis) : Nat × Throttle α :=
  let (within, t) := t.countWrite (utcDay clock)
  let (wait, writes) := if within then (0, t.writes) else draw t.writes now
  let s := t.stats
  (wait, { t with
    writes
    stats := { s with
      totalWrites := s.totalWrites + 1
      throttledWrites := s.throttledWrites + if wait = 0 then 0 else 1
      totalWriteDelay := s.totalWriteDelay + wait } })

/-- Admits a call. -/
def meter (a : Access) (t : Throttle α) (now : Nat) (clock : Millis) : Nat × Throttle α :=
  match a with
  | .read => t.meterRead now
  | .put => t.meterWrite now clock

end Throttle

end LeaseQueue.Store
