import Fleet.Index.Basic
import Fleet.Wire.Service

/-!
# Replies of a node

A reply is one line of JSON: an object that says whether the command succeeded, with what it asked
for or with the kind and the text of the failure. The fields of every object stand in the order of
their names.
-/

namespace Fleet

namespace Json

mutual

/-- A value with the fields of all its objects in the order of their names. -/
def sorted : Json → Json
  | .array items => .array (sortedItems items)
  | .object fields => .object ((sortedFields fields).mergeSort fun a b => a.1.getD "" ≤ b.1.getD "")
  | v => v

/-- The items of an array, each with its fields in order. -/
def sortedItems : List Json → List Json
  | [] => []
  | v :: rest => sorted v :: sortedItems rest

/-- The fields of an object, the value of each with its fields in order. -/
def sortedFields : List (Option String × Json) → List (Option String × Json)
  | [] => []
  | (key, v) :: rest => (key, sorted v) :: sortedFields rest

end

end Json

/-- The name by which clients know a kind of failure. -/
def FleetError.kind : FleetError → String
  | .invalidCoordinate _ _ => "invalid_input"
  | .invalidInput _ => "invalid_input"
  | .notFound _ => "not_found"
  | .unavailable _ => "upstream_unavailable"
  | .timedOut _ => "timeout"
  | .internal _ => "internal"
  | .invalidConfig _ => "invalid_config"

namespace Node

/-- **What a node replies.** -/
inductive Reply where
  | done
  | drivers (ids : List String)
  | position (position : Position)
  | removed (wasPresent : Bool)
  | ingested (analysis : TrackAnalysis)
  | points (points : List TrackPoint)
  | stats (stats : ServiceStats)
  | failed (error : FleetError)
  /-- The line is not a command. -/
  | badRequest

namespace Reply

open Wire

/-- Whether a reply reports success. -/
def isOk : Reply → Bool
  | .failed _ => false
  | .badRequest => false
  | _ => true

/-- The reply to a result, made from what it holds. -/
def ofResult {α : Type} (reply : α → Reply) : Except FleetError α → Reply
  | .ok a => reply a
  | .error e => .failed e

/-- The fields of a reply besides the verdict. -/
def fields : Reply → List (String × Json)
  | .done => []
  | .drivers ids => [("drivers", toJson ids)]
  | .position p => [("position", toJson p)]
  | .removed wasPresent => [("removed", toJson wasPresent)]
  | .ingested a => [
    ("sequence", toJson a.sequence),
    ("average_speed_kph", toJson a.averageSpeed),
    ("max_speed_kph", toJson a.maxSpeed),
    ("confidence", toJson a.confidence),
    ("anomaly_count", toJson a.anomalyCount)]
  | .points ps => [("points", toJson ps)]
  | .stats s => [("stats", toJson s)]
  | .failed e => [("error", .string e.kind), ("message", .string e.message)]
  | .badRequest => [("error", .string "bad_request"), ("message", .string "malformed command")]

/-- The value that is written for a reply. -/
def value (r : Reply) : Json :=
  (Json.record (("ok", some (toJson r.isOk)) :: r.fields.map fun f => (f.1, some f.2))).sorted

/-- **The line that is written for a reply,** without its end. -/
def line (r : Reply) : Bytes := r.value.bytes

end Reply

end Node

end Fleet
