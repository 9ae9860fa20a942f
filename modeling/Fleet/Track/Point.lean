import Fleet.Geo.Position

/-!
# Points of a track

A track is a driver's list of fixes, oldest first. Analysis annotates each fix with the edge that
leads to it and sums the edges up.
-/

namespace Fleet

/-- **The verdict on the edge that leads to a point.** -/
structure EdgeAnalysis where
  /-- Speed along the edge in km/h. -/
  speed : Float
  /-- One for a plausible edge, less the more the speed exceeds the limit. -/
  confidence : Float
  isAnomaly : Bool
  /-- Where the driver can have been at most, if the edge is an anomaly. -/
  estimatedLocation : Option Position
deriving DecidableEq

/-- **A fix of a driver.** -/
structure TrackPoint where
  driverId : String
  position : Position
  /-- Speed in km/h as reported or as analyzed. -/
  speed : Float := 0
  analysis : Option EdgeAnalysis := none
deriving DecidableEq

/-- **The analysis of a window of a track.** -/
structure TrackAnalysis where
  driverId : String
  points : List TrackPoint
  averageSpeed : Float
  maxSpeed : Float
  confidence : Float
  anomalyCount : Nat
  computedAt : Timestamp
  /-- How many points had been appended to the track. -/
  sequence : UInt64 := 0
deriving DecidableEq

namespace TrackAnalysis

/-- The analysis of a track that is too short to have an edge. -/
def insufficient (driverId : String) (points : List TrackPoint) (computedAt : Timestamp) :
    TrackAnalysis where
  driverId; points; computedAt
  averageSpeed := 0
  maxSpeed := 0
  confidence := 1
  anomalyCount := 0

/-- The last `count` points of the window. -/
def lastPoints (a : TrackAnalysis) (count : Nat) : List TrackPoint :=
  a.points.drop (a.points.length - count)

end TrackAnalysis

end Fleet
