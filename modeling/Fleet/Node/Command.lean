import Fleet.Json.Plain
import Fleet.Wire.Track

/-!
# Commands to a node

A command is one line of JSON: an object with the name of the command in the field `op` and its
arguments in other fields, or an array with the name first and the arguments in order.
-/

namespace Fleet.Node

open Wire

/-- **What a node can be told to do.** -/
inductive Command where
  /-- A driver reports where it is. -/
  | update (driverId : String) (latitude longitude : Float)
  /-- Which drivers are nearest to a coordinate. -/
  | nearby (latitude longitude : Float) (limit : Nat)
  /-- Where a driver was last. -/
  | locate (driverId : String)
  | remove (driverId : String)
  /-- A point for the track of its driver. -/
  | ingest (point : TrackPoint)
  /-- The newest points of a driver with their analysis. -/
  | track (driverId : String) (count : Nat)
  | stats

namespace Command

/-- How many drivers are looked for if the command does not say. -/
def defaultLimit : Nat := 10

/-- How many points are asked for if the command does not say. -/
def defaultCount : Nat := 100

/-- The deepest nesting of a line. -/
def maxDepth : Nat := 127

/-- The name of a command and the value that holds its arguments. -/
def split? : Json → Option (String × Json)
  | .object fields =>
    match field? fields "op" with
    | some (some (.text (some op))) => some (op, .object fields)
    | _ => none
  | .array (.text (some op) :: arguments) => some (op, .array arguments)
  | _ => none

/-- Whether a value may stand for no arguments. Arguments in order may not be there, fields
may. -/
def isEmpty : Json → Bool
  | .array arguments => arguments.isEmpty
  | _ => true

/-- The command with a given name and arguments. -/
def ofArguments? (op : String) (arguments : Json) : Option Command :=
  match op with
  | "update" =>
    match fields? ["driver_id", "lat", "lon"] arguments with
    | some [driverId, latitude, longitude] => do
      return .update (← required driverId) (← required latitude) (← required longitude)
    | _ => none
  | "nearby" =>
    match fields? ["lat", "lon", "limit"] arguments with
    | some [latitude, longitude, limit] => do
      return .nearby (← required latitude) (← required longitude) (← orDefault defaultLimit limit)
    | _ => none
  | "locate" =>
    match fields? ["driver_id"] arguments with
    | some [driverId] => do return .locate (← required driverId)
    | _ => none
  | "remove" =>
    match fields? ["driver_id"] arguments with
    | some [driverId] => do return .remove (← required driverId)
    | _ => none
  | "ingest" =>
    match fields? ["point"] arguments with
    | some [point] => do return .ingest (← required point)
    | _ => none
  | "track" =>
    match fields? ["driver_id", "count"] arguments with
    | some [driverId, count] => do
      return .track (← required driverId) (← orDefault defaultCount count)
    | _ => none
  | "stats" => if isEmpty arguments then some .stats else none
  | _ => none

/-- **The command that a line holds.** -/
def read? (line : Bytes) : Option Command := do
  let value ← (Json.read? line maxDepth).filter Json.isPlain
  let (op, arguments) ← split? value
  ofArguments? op arguments

end Command

end Fleet.Node
