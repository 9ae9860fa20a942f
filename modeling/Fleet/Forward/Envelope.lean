import Fleet.Bytes
import Fleet.Time.Clock

/-!
# Envelopes

What the forwarder carries: a driver's fix in its stored form, and when it was queued.
-/

namespace Fleet

/-- **A fix on its way to the track store.** -/
structure Envelope where
  driverId : String
  payload : Bytes
  sentAt : Timestamp
deriving DecidableEq

/-- Counts of a forwarder. -/
structure ForwarderStats where
  /-- Envelopes taken into the queue. -/
  enqueued : Nat := 0
  /-- Envelopes that the sink accepted. -/
  delivered : Nat := 0
  /-- Envelopes dropped because the queue was full. -/
  droppedFull : Nat := 0
  /-- Envelopes that the sink refused or did not take in time, or that came after the worker
  stopped. -/
  failed : Nat := 0
deriving DecidableEq, Repr

end Fleet
