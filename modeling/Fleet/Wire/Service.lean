import Fleet.Forward.Envelope
import Fleet.Index.Basic
import Fleet.Wire.Track

/-!
# Records, statistics and envelopes as JSON

The written form of what the index, the forwarder and the service report.
-/

namespace Fleet

open Wire

/-- Index and forwarder counts together. -/
structure ServiceStats where
  index : IndexStats
  forwarder : ForwarderStats
deriving DecidableEq

instance : Wire Cell where
  toJson c := .record [("lat", some (toJson c.lat)), ("lon", some (toJson c.lon))]
  ofJson? j :=
    match fields? ["lat", "lon"] j with
    | some [lat, lon] => do return ⟨← required lat, ← required lon⟩
    | _ => none

namespace DriverStatus

/-- The name a status is written as. -/
def name : DriverStatus → String
  | .active => "active"
  | .stalePendingEviction => "stale_pending_eviction"

/-- The status with a given name. -/
def ofName? (name : String) : Option DriverStatus :=
  [active, stalePendingEviction].find? fun s => s.name = name

end DriverStatus

instance : Wire DriverStatus where
  toJson s := .string s.name
  ofJson? j := (name? j).bind DriverStatus.ofName?

instance : Wire DriverRecord where
  toJson r := .record [
    ("driver_id", some (toJson r.driverId)),
    ("last_position", some (toJson r.lastPosition)),
    ("status", some (toJson r.status))]
  ofJson? j :=
    match fields? ["driver_id", "last_position", "status"] j with
    | some [driverId, lastPosition, status] => do
      return ⟨← required driverId, ← required lastPosition, ← required status⟩
    | _ => none

instance : Wire IndexStats where
  toJson s := .record [
    ("drivers", some (toJson s.drivers)),
    ("buckets", some (toJson s.cells)),
    ("avg_drivers_per_bucket", some (toJson s.driversPerCell)),
    ("bucket_size_deg", some (toJson s.cellSize))]
  ofJson? j :=
    match fields? ["drivers", "buckets", "avg_drivers_per_bucket", "bucket_size_deg"] j with
    | some [drivers, cells, driversPerCell, cellSize] => do
      return ⟨← required drivers, ← required cells, ← required driversPerCell, ← required cellSize⟩
    | _ => none

instance : Wire ForwarderStats where
  toJson s := .record [
    ("enqueued", some (toJson s.enqueued)),
    ("delivered", some (toJson s.delivered)),
    ("dropped_full", some (toJson s.droppedFull)),
    ("failed", some (toJson s.failed))]
  ofJson? j :=
    match fields? ["enqueued", "delivered", "dropped_full", "failed"] j with
    | some [enqueued, delivered, droppedFull, failed] => do
      return ⟨← required enqueued, ← required delivered, ← required droppedFull, ← required failed⟩
    | _ => none

instance : Wire ServiceStats where
  toJson s := .record [("index", some (toJson s.index)), ("forwarder", some (toJson s.forwarder))]
  ofJson? j :=
    match fields? ["index", "forwarder"] j with
    | some [index, forwarder] => do return ⟨← required index, ← required forwarder⟩
    | _ => none

instance : Wire Envelope where
  toJson e := .record [
    ("driver_id", some (toJson e.driverId)),
    ("payload", some (toJson e.payload)),
    ("sent_at_ms", some (toJson e.sentAt))]
  ofJson? j :=
    match fields? ["driver_id", "payload", "sent_at_ms"] j with
    | some [driverId, payload, sentAt] => do
      return ⟨← required driverId, ← required payload, ← required sentAt⟩
    | _ => none

end Fleet
