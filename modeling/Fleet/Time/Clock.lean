import Fleet.Time.Duration

/-!
# Timestamps and the virtual clock

Fixes are stamped with Unix milliseconds. The virtual clock counts nanoseconds from a fixed epoch,
moves only when it is advanced, and stops at the end of its range.
-/

namespace Fleet

/-- Unix time in milliseconds. -/
abbrev Timestamp := Int64

/-- Milliseconds from `earlier` to `later`, held at the ends of the 64-bit range. -/
def Timestamp.since (later earlier : Timestamp) : Int64 :=
  Int64.ofIntClamp (later.toInt - earlier.toInt)

/-- **The virtual clock.** -/
structure Clock where
  elapsed : Nat
  bounded : elapsed < 2 ^ 64
deriving DecidableEq

namespace Clock

/-- A clock that has not moved. -/
def start : Clock := ⟨0, by decide⟩

/-- The last moment the clock can show. -/
def last : Nat := 2 ^ 64 - 1

/-- The clock after `step` nanoseconds have passed. -/
def advanceNanos (c : Clock) (step : Nat) : Clock where
  elapsed := min (c.elapsed + step) last
  bounded := by unfold last; omega

/-- The clock after `step` has passed. -/
def advance (c : Clock) (step : Duration) : Clock := c.advanceNanos step.nanos

/-- Time since the clock was started. -/
def now (c : Clock) : Duration := ⟨c.elapsed, by have := c.bounded; unfold nanosPerSecond; omega⟩

/-- The Unix time at which the clock starts: 1 January 2024. -/
def epochMillis : Nat := 1704067200000

/-- The Unix time that the clock shows. -/
def timestamp (c : Clock) : Timestamp :=
  Int64.ofNat (epochMillis + c.elapsed / nanosPerMilli)

/-- The moment `wait` after now, held at the end of the range: when a sleeper wakes. -/
def wakeAfter (c : Clock) (wait : Duration) : Nat := min (c.elapsed + wait.nanos) last

end Clock

end Fleet
