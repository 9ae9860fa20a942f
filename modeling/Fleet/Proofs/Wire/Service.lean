import Fleet.Proofs.Wire.Stable
import Fleet.Wire.Service

/-!
# Everything that is written is read back

What the index, the forwarder and the service report is written and read field by field like the
track types.  Main statement: `records_read_back`, on every type with a written form at once.
-/

namespace Fleet

open Wire

/-! ## Cells and statuses -/

/-- What is read back of a written cell. -/
@[simp]
theorem Cell.ofJson?_toJson (c : Cell) : ofJson? (toJson c) = some c := by
  have hfields := fields?_record [("lat", some (toJson c.lat)), ("lon", some (toJson c.lon))]
    (by simp)
  simp only [List.map_cons, List.map_nil] at hfields
  delta instWireCell
  simp only [hfields, required, Option.bind_some, ofJson?_toJson_int64, Option.bind_eq_bind]
  rfl

/-- The names of the statuses tell them apart. -/
theorem DriverStatus.ofName?_name (s : DriverStatus) : ofName? s.name = some s := by
  cases s <;> decide

@[simp]
theorem DriverStatus.ofJson?_toJson (s : DriverStatus) : ofJson? (toJson s) = some s :=
  ofName?_name s

/-! ## Drivers -/

theorem DriverRecord.ofJson?_toJson {r : DriverRecord} (h : r.lastPosition.IsStable) :
    ofJson? (toJson r) = some r := by
  have hfields := fields?_record [
    ("driver_id", some (toJson r.driverId)),
    ("last_position", some (toJson r.lastPosition)),
    ("status", some (toJson r.status))] (by simp)
  simp only [List.map_cons, List.map_nil] at hfields
  delta instWireDriverRecord
  simp only [hfields, required, Option.bind_some, ofJson?_toJson_string,
    Position.ofJson?_toJson_iff.mpr h, DriverStatus.ofJson?_toJson, Option.bind_eq_bind]
  rfl

/-! ## Counts -/

/-- **The counts of an index fit** the words they are read into. -/
structure IndexStats.Fits (s : IndexStats) : Prop where
  drivers : s.drivers < 2 ^ 64
  cells : s.cells < 2 ^ 64

/-- Statistics of an index whose quotients are read as themselves. -/
structure IndexStats.IsStable (s : IndexStats) : Prop where
  driversPerCell : Wire.IsStable s.driversPerCell
  cellSize : Wire.IsStable s.cellSize

theorem IndexStats.ofJson?_toJson {s : IndexStats} (h : s.IsStable) (hfits : s.Fits) :
    ofJson? (toJson s) = some s := by
  have hfields := fields?_record [
    ("drivers", some (toJson s.drivers)),
    ("buckets", some (toJson s.cells)),
    ("avg_drivers_per_bucket", some (toJson s.driversPerCell)),
    ("bucket_size_deg", some (toJson s.cellSize))] (by simp)
  simp only [List.map_cons, List.map_nil] at hfields
  delta instWireIndexStats
  simp only [hfields, required, Option.bind_some, ofJson?_toJson_nat hfits.drivers,
    ofJson?_toJson_nat hfits.cells, isStable_iff.mp h.driversPerCell, isStable_iff.mp h.cellSize,
    Option.bind_eq_bind]
  rfl

/-- **The counts of a forwarder fit** the words they are read into. -/
structure ForwarderStats.Fits (s : ForwarderStats) : Prop where
  enqueued : s.enqueued < 2 ^ 64
  delivered : s.delivered < 2 ^ 64
  droppedFull : s.droppedFull < 2 ^ 64
  failed : s.failed < 2 ^ 64

theorem ForwarderStats.ofJson?_toJson {s : ForwarderStats} (hfits : s.Fits) :
    ofJson? (toJson s) = some s := by
  have hfields := fields?_record [
    ("enqueued", some (toJson s.enqueued)),
    ("delivered", some (toJson s.delivered)),
    ("dropped_full", some (toJson s.droppedFull)),
    ("failed", some (toJson s.failed))] (by simp)
  simp only [List.map_cons, List.map_nil] at hfields
  delta instWireForwarderStats
  simp only [hfields, required, Option.bind_some, ofJson?_toJson_nat hfits.enqueued,
    ofJson?_toJson_nat hfits.delivered, ofJson?_toJson_nat hfits.droppedFull,
    ofJson?_toJson_nat hfits.failed, Option.bind_eq_bind]
  rfl

theorem ServiceStats.ofJson?_toJson {s : ServiceStats} (h : s.index.IsStable)
    (hindex : s.index.Fits) (hforwarder : s.forwarder.Fits) : ofJson? (toJson s) = some s := by
  have hfields := fields?_record [
    ("index", some (toJson s.index)), ("forwarder", some (toJson s.forwarder))] (by simp)
  simp only [List.map_cons, List.map_nil] at hfields
  delta instWireServiceStats
  simp only [hfields, required, Option.bind_some, IndexStats.ofJson?_toJson h hindex,
    ForwarderStats.ofJson?_toJson hforwarder, Option.bind_eq_bind]
  rfl

/-! ## Envelopes -/

/-- What is read back of a written envelope. -/
@[simp]
theorem Envelope.ofJson?_toJson (e : Envelope) : ofJson? (toJson e) = some e := by
  have hfields := fields?_record [
    ("driver_id", some (toJson e.driverId)),
    ("payload", some (toJson e.payload)),
    ("sent_at_ms", some (toJson e.sentAt))] (by simp)
  simp only [List.map_cons, List.map_nil] at hfields
  delta instWireEnvelope
  simp only [hfields, required, Option.bind_some, ofJson?_toJson_string, ofJson?_toJson_bytes,
    ofJson?_toJson_int64, Option.bind_eq_bind]
  rfl

/-! ## All records -/

namespace Wire

/-- **Whatever is written is read back as it was,** if the floats in it are read as themselves and
its counts fit 64 bits.  Nothing is asked of texts, of signed and unsigned words, of payloads, of
lists, or of which optional parts are there. -/
theorem records_read_back :
    (∀ p : Position, p.IsStable → read? (write p) = some p) ∧
    (∀ e : EdgeAnalysis, e.IsStable → read? (write e) = some e) ∧
    (∀ q : TrackPoint, q.IsStable → read? (write q) = some q) ∧
    (∀ a : TrackAnalysis, a.IsStable → a.anomalyCount < 2 ^ 64 → read? (write a) = some a) ∧
    (∀ r : DriverRecord, r.lastPosition.IsStable → read? (write r) = some r) ∧
    (∀ s : DriverStatus, read? (write s) = some s) ∧
    (∀ c : Cell, read? (write c) = some c) ∧
    (∀ s : IndexStats, s.IsStable → s.Fits → read? (write s) = some s) ∧
    (∀ s : ForwarderStats, s.Fits → read? (write s) = some s) ∧
    (∀ s : ServiceStats, s.index.IsStable → s.index.Fits → s.forwarder.Fits →
      read? (write s) = some s) ∧
    (∀ e : Envelope, read? (write e) = some e) := by
  refine ⟨?position, ?verdict, ?point, ?analysis, ?driver, ?status, ?cell, ?index, ?forwarder,
    ?service, ?envelope⟩
  case position =>
    intro p h
    rw [read?_write, Position.ofJson?_toJson_iff.mpr h]
  case verdict =>
    intro e h
    rw [read?_write, EdgeAnalysis.ofJson?_toJson_iff.mpr h]
  case point =>
    intro q h
    rw [read?_write, TrackPoint.ofJson?_toJson_iff.mpr h]
  case analysis =>
    intro a h hcount
    exact TrackAnalysis.read?_write h hcount
  case driver =>
    intro r h
    rw [read?_write, DriverRecord.ofJson?_toJson h]
  case status =>
    intro s
    rw [read?_write, DriverStatus.ofJson?_toJson]
  case cell =>
    intro c
    rw [read?_write, Cell.ofJson?_toJson]
  case index =>
    intro s h hfits
    rw [read?_write, IndexStats.ofJson?_toJson h hfits]
  case forwarder =>
    intro s hfits
    rw [read?_write, ForwarderStats.ofJson?_toJson hfits]
  case service =>
    intro s h hindex hforwarder
    rw [read?_write, ServiceStats.ofJson?_toJson h hindex hforwarder]
  case envelope =>
    intro e
    rw [read?_write, Envelope.ofJson?_toJson]

/-- A driver whose name has to be escaped, with a verdict that estimates a location, in an
analysis without a sequence number; and statistics with the largest counts. -/
theorem records_read_back_of_escaped_name :
    let somewhere : Position := ⟨52.5, -13.25, Int64.minValue⟩
    let verdict : EdgeAnalysis := ⟨1e21, 0.1, true, some somewhere⟩
    let point : TrackPoint := ⟨"a\"b\\c\nd\u0001é\u0000", somewhere, 0, some verdict⟩
    let track : TrackAnalysis := ⟨point.driverId, [point, point], 0, 1e-7, 1, 1, 0, 0⟩
    let stats : ServiceStats :=
      ⟨⟨2 ^ 64 - 1, 3, 0.75, 0.01⟩, ⟨2 ^ 64 - 1, 0, 1, 2 ^ 64 - 1⟩⟩
    read? (write track) = some track ∧ read? (write stats) = some stats := by
  intro somewhere verdict point track stats
  have hsomewhere : somewhere.IsStable := ⟨by decide +kernel, by decide +kernel⟩
  have hverdict : verdict.IsStable := by
    refine ⟨by decide +kernel, by decide +kernel, ?_⟩
    intro p hp
    obtain rfl := Option.some.inj hp
    exact hsomewhere
  have hpoint : point.IsStable := by
    refine ⟨hsomewhere, by decide +kernel, ?_⟩
    intro e he
    obtain rfl := Option.some.inj he
    exact hverdict
  have htrack : track.IsStable := by
    refine ⟨?_, by decide +kernel, by decide +kernel, by decide +kernel⟩
    intro q hq
    obtain rfl : q = point := by simpa [track] using hq
    exact hpoint
  obtain ⟨-, -, -, hanalysis, -, -, -, -, -, hservice, -⟩ := records_read_back
  exact ⟨hanalysis track htrack (by decide),
    hservice stats ⟨by decide +kernel, by decide +kernel⟩ ⟨by decide, by decide⟩
      ⟨by decide, by decide, by decide, by decide⟩⟩

end Wire
end Fleet
