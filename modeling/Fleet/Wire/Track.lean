import Fleet.Json.Record
import Fleet.Track.Point

/-!
# Positions, points and analyses as JSON

The stored form of the track types, with the names that their fields carry in it.
-/

namespace Fleet

open Wire

instance : Wire Position where
  toJson p := .record [
    ("latitude", some (toJson p.latitude)),
    ("longitude", some (toJson p.longitude)),
    ("observed_at_ms", some (toJson p.observedAt))]
  ofJson? j :=
    match fields? ["latitude", "longitude", "observed_at_ms"] j with
    | some [latitude, longitude, observedAt] => do
      return ⟨← required latitude, ← required longitude, ← required observedAt⟩
    | _ => none

instance : Wire EdgeAnalysis where
  toJson e := .record [
    ("calculated_speed_kph", some (toJson e.speed)),
    ("confidence", some (toJson e.confidence)),
    ("is_anomaly", some (toJson e.isAnomaly)),
    ("estimated_location", e.estimatedLocation.map toJson)]
  ofJson? j :=
    match fields? ["calculated_speed_kph", "confidence", "is_anomaly", "estimated_location"] j with
    | some [speed, confidence, isAnomaly, estimatedLocation] => do
      return ⟨← required speed, ← required confidence, ← required isAnomaly,
        ← nullable estimatedLocation⟩
    | _ => none

instance : Wire TrackPoint where
  toJson p := .record [
    ("driver_id", some (toJson p.driverId)),
    ("position", some (toJson p.position)),
    ("speed_kph", some (toJson p.speed)),
    ("analysis", p.analysis.map toJson)]
  ofJson? j :=
    match fields? ["driver_id", "position", "speed_kph", "analysis"] j with
    | some [driverId, position, speed, analysis] => do
      return ⟨← required driverId, ← required position, ← orDefault (0 : Float) speed,
        ← nullable analysis⟩
    | _ => none

instance : Wire TrackAnalysis where
  toJson a := .record [
    ("driver_id", some (toJson a.driverId)),
    ("points", some (toJson a.points)),
    ("average_speed_kph", some (toJson a.averageSpeed)),
    ("max_speed_kph", some (toJson a.maxSpeed)),
    ("confidence", some (toJson a.confidence)),
    ("anomaly_count", some (toJson a.anomalyCount)),
    ("computed_at_ms", some (toJson a.computedAt)),
    ("sequence", some (toJson a.sequence))]
  ofJson? j :=
    match fields? ["driver_id", "points", "average_speed_kph", "max_speed_kph", "confidence",
        "anomaly_count", "computed_at_ms", "sequence"] j with
    | some [driverId, points, averageSpeed, maxSpeed, confidence, anomalyCount, computedAt,
        sequence] => do
      return ⟨← required driverId, ← required points, ← required averageSpeed, ← required maxSpeed,
        ← required confidence, ← required anomalyCount, ← required computedAt,
        ← orDefault (0 : UInt64) sequence⟩
    | _ => none

end Fleet
