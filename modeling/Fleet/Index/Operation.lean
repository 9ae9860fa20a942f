import Fleet.Index.Nearest

/-!
# Histories of an index

The public operations of an index as data, what each answers and what it leaves behind. A history
is a list of operations run from an empty index.
-/

namespace Fleet.Index

/-- A public operation. -/
inductive Operation where
  | update (driverId : String) (latitude longitude : Float) (observedAt : Timestamp)
  | lookup (driverId : String)
  | nearest (latitude longitude : Float) (limit : Nat)
  | driversIn (cell : Cell)
  | cellOf (latitude longitude : Float)
  | sweep (now : Timestamp) (limit : Duration)
  | sweepStale (now : Timestamp)
  | remove (driverId : String)
  | records (now : Timestamp)
  | stats
  | size

/-- What an operation answers. -/
inductive Answer where
  | updated (result : Except FleetError Position)
  | position (found : Option Position)
  | found (result : Except FleetError (List String))
  | ids (ids : List String)
  | cell (cell : Cell)
  | evicted (count : Nat)
  | removed (wasPresent : Bool)
  | records (records : List DriverRecord)
  | stats (stats : IndexStats)
  | size (count : Nat)

/-- **One operation:** its answer and the index after it. -/
def run (ix : Index) : Operation → Answer × Index
  | .update driverId latitude longitude observedAt =>
    match ix.update driverId latitude longitude observedAt with
    | .ok (position, after) => (.updated (.ok position), after)
    | .error e => (.updated (.error e), ix)
  | .lookup driverId => (.position (ix.lookup driverId), ix)
  | .nearest latitude longitude limit =>
    (.found (ix.nearest latitude longitude limit), ix.afterNearest latitude longitude limit)
  | .driversIn cell => (.ids (ix.driversIn cell), ix)
  | .cellOf latitude longitude => (.cell (ix.cellOf latitude longitude), ix)
  | .sweep now limit => let (count, after) := ix.sweep now limit; (.evicted count, after)
  | .sweepStale now => let (count, after) := ix.sweepStale now; (.evicted count, after)
  | .remove driverId => (.removed (ix.drivers.contains driverId), ix.remove driverId)
  | .records now => (.records (ix.records now), ix)
  | .stats => (.stats ix.stats, ix)
  | .size => (.size ix.size, ix)

/-- The index after a history of operations. -/
def after (ix : Index) (history : List Operation) : Index :=
  history.foldl (fun ix op => (ix.run op).2) ix

end Fleet.Index
