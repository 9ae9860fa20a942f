import Fleet.Proofs.Wire.Record
import Fleet.Wire.Track

/-!
# Written analyses are read back

Reading back an analysis can fail, and its floats can change, but the moment at which it was
computed and its sequence number are what they were.  Neither has an influence on how the rest is
read: that is `read?_write_stamped`.  The number can be told even where reading back fails:
`sequence?_write`.
-/

namespace Fleet
namespace Wire

/-- The fields of a written analysis. -/
theorem fields?_toJson_analysis (a : TrackAnalysis) :
    fields? ["driver_id", "points", "average_speed_kph", "max_speed_kph", "confidence",
        "anomaly_count", "computed_at_ms", "sequence"] (toJson a) =
      some [some (toJson a.driverId), some (toJson a.points), some (toJson a.averageSpeed),
        some (toJson a.maxSpeed), some (toJson a.confidence), some (toJson a.anomalyCount),
        some (toJson a.computedAt), some (toJson a.sequence)] :=
  fields?_record [
    ("driver_id", some (toJson a.driverId)),
    ("points", some (toJson a.points)),
    ("average_speed_kph", some (toJson a.averageSpeed)),
    ("max_speed_kph", some (toJson a.maxSpeed)),
    ("confidence", some (toJson a.confidence)),
    ("anomaly_count", some (toJson a.anomalyCount)),
    ("computed_at_ms", some (toJson a.computedAt)),
    ("sequence", some (toJson a.sequence))] (by simp)

/-- What is read back of a written analysis, field by field. -/
theorem read?_write_analysis (a : TrackAnalysis) :
    (read? (write a) : Option TrackAnalysis) = do
      let points ← ofJson? (toJson a.points)
      let averageSpeed ← ofJson? (toJson a.averageSpeed)
      let maxSpeed ← ofJson? (toJson a.maxSpeed)
      let confidence ← ofJson? (toJson a.confidence)
      let anomalyCount ← ofJson? (toJson a.anomalyCount)
      return { a with points, averageSpeed, maxSpeed, confidence, anomalyCount } := by
  rw [read?_write]
  -- the written form stays closed while the way of reading it is opened
  generalize hj : toJson a = j
  have hfields := hj ▸ fields?_toJson_analysis a
  delta instWireTrackAnalysis
  simp only [hfields, required, orDefault, Option.bind_some,
    ofJson?_toJson_string, ofJson?_toJson_int64, ofJson?_toJson_uint64, Option.bind_eq_bind]

/-- **The number of a stored analysis,** also if not all of the rest can be read. -/
def sequence? (bs : Bytes) : Option UInt64 :=
  (Json.read? bs).bind fun j =>
    match fields? ["driver_id", "points", "average_speed_kph", "max_speed_kph", "confidence",
        "anomaly_count", "computed_at_ms", "sequence"] j with
    | some [_, _, _, _, _, _, _, sequence] => orDefault 0 sequence
    | _ => none

/-- What is read has the number that it is stored under. -/
theorem sequence?_of_read? {bs : Bytes} {a : TrackAnalysis} (h : read? bs = some a) :
    sequence? bs = some a.sequence := by
  obtain ⟨j, hj, ha⟩ := Option.bind_eq_some_iff.mp h
  rw [sequence?, hj, Option.bind_some]
  delta instWireTrackAnalysis at ha
  dsimp only at ha
  generalize fields? ["driver_id", "points", "average_speed_kph", "max_speed_kph", "confidence",
    "anomaly_count", "computed_at_ms", "sequence"] j = fields at ha ⊢
  split at ha
  · simp only [Option.bind_eq_bind, Option.bind_eq_some_iff, Option.pure_def,
      Option.some.injEq] at ha
    obtain ⟨_, -, _, -, _, -, _, -, _, -, _, -, _, -, sequence, hsequence, rfl⟩ := ha
    exact hsequence
  · cases ha

/-- **A written analysis has its number,** whether or not it can be read back. -/
theorem sequence?_write (a : TrackAnalysis) : sequence? (write a) = some a.sequence := by
  rw [sequence?, write, Json.read?_bytes, Option.bind_some, fields?_toJson_analysis]
  exact ofJson?_toJson_uint64 a.sequence

/-- **The sequence number of an analysis survives writing and reading.** -/
theorem sequence_of_read? {a b : TrackAnalysis} (h : read? (write a) = some b) :
    b.sequence = a.sequence :=
  Option.some.inj ((sequence?_of_read? h).symm.trans (sequence?_write a))

/-- Reading back an analysis reads back its points. -/
theorem points_of_read? {a b : TrackAnalysis} (h : read? (write a) = some b) :
    ofJson? (toJson a.points) = some b.points := by
  rw [read?_write_analysis] at h
  simp only [Option.bind_eq_bind, Option.bind_eq_some_iff, Option.pure_def, Option.some.injEq] at h
  obtain ⟨points, hpoints, _, -, _, -, _, -, _, -, rfl⟩ := h
  exact hpoints

/-- **When an analysis was computed and how many points it covers does not matter** to the rest of
what is read back. -/
theorem read?_write_stamped (a : TrackAnalysis) (computedAt : Timestamp) (sequence : UInt64) :
    read? (write { a with computedAt, sequence }) =
      (read? (write a)).map fun b : TrackAnalysis => { b with computedAt, sequence } := by
  rw [read?_write_analysis, read?_write_analysis]
  simp only [Option.bind_eq_bind, Option.pure_def, Option.map_bind, Option.map_some,
    Function.comp_def]

end Wire
end Fleet
