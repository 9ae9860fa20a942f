import Fleet.Service.DriverService

/-!
# The sweeper

A task that sleeps for the cleanup interval and then drops stale drivers. It arms its next sleep
when it wakes, so a clock that jumps ahead gives one pass only. Once it is stopped it does nothing
more, even if a pass is due.
-/

namespace Fleet

/-- **A sweeper.** -/
structure Sweeper where
  /-- The moment at which the sweeper wakes, in nanoseconds of the clock. -/
  wakesAt : Nat
  sweeps : Nat := 0
  evicted : Nat := 0
  isStopped : Bool := false
deriving DecidableEq, Repr

namespace Sweeper

/-- A sweeper that goes to sleep now. -/
def start (clock : Clock) (interval : Duration) : Sweeper := { wakesAt := clock.wakeAfter interval }

/-- Stops the sweeper. -/
def stop (w : Sweeper) : Sweeper := { w with isStopped := true }

/-- Whether a pass is due. -/
def isDue (w : Sweeper) (clock : Clock) : Bool := !w.isStopped && w.wakesAt ≤ clock.elapsed

/-- **The sweeper is given a chance to run:** one pass over the drivers if it is due. -/
def poll (w : Sweeper) (clock : Clock) (s : DriverService) : Sweeper × DriverService :=
  if w.isDue clock then
    let (count, s) := s.sweep clock.timestamp
    ({ w with
        wakesAt := clock.wakeAfter s.index.config.cleanupInterval
        sweeps := w.sweeps + 1
        evicted := w.evicted + count }, s)
  else (w, s)

end Sweeper

end Fleet
