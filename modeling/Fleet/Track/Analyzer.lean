import Fleet.Track.Point

/-!
# Track analysis

Each pair of neighbouring fixes is an edge of the track. An edge covered faster than the speed
limit is an anomaly: its confidence is the limit over the speed, and the later fix gets an
estimated location, the farthest point on the straight line in degrees that the limit allows.
Fixes at the same instant have no speed, and the edge between them is skipped.

Edge distance and edge verdict are separate: `assess` takes the distance as an argument.
-/

namespace Fleet

namespace Track

/-- The number of milliseconds in an hour. -/
def millisPerHour : Float := 3600000

/-- Milliseconds between two fixes, whichever came first. -/
def elapsedMillis (previous current : Position) : Nat :=
  (Timestamp.since current.observedAt previous.observedAt).toInt.natAbs

/-- **The verdict on an edge** of `distance` kilometres covered in `elapsed` milliseconds. Only a
speed at most the limit is plausible, so NaN is an anomaly. -/
def assess (limit distance elapsed : Float) (previous current : Position) : EdgeAnalysis :=
  let speed := distance * millisPerHour / elapsed
  if speed ≤ limit then
    { speed, confidence := 1, isAnomaly := false, estimatedLocation := none }
  else
    let reachable := limit * elapsed / millisPerHour
    let (latitude, longitude) := previous.along current (reachable / distance)
    { speed
      confidence := limit / speed
      isAnomaly := true
      estimatedLocation := some ⟨latitude, longitude, current.observedAt⟩ }

/-- How far apart two positions are in kilometres. -/
abbrev Metric := Position → Position → Float

/-- The verdict on the edge between two neighbouring fixes; none if no time passed between
them. -/
def edge? (metric : Metric) (limit : Float) (previous current : TrackPoint) : Option EdgeAnalysis :=
  let elapsed := elapsedMillis previous.position current.position
  if elapsed = 0 then none
  else some (assess limit (metric previous.position current.position) (Float.ofNat elapsed)
    previous.position current.position)

/-- A point with the verdict on the edge that leads to it. A point whose edge is skipped keeps
what it carried. -/
def annotate (point : TrackPoint) : Option EdgeAnalysis → TrackPoint
  | none => point
  | some edge => { point with speed := edge.speed, analysis := some edge }

/-- The verdicts on the edges of a track, one for each point after the first. -/
def edges (metric : Metric) (limit : Float) (points : List TrackPoint) :
    List (Option EdgeAnalysis) :=
  List.zipWith (edge? metric limit) points (points.drop 1)

/-- The points of a track, each but the first with the verdict on the edge that leads to it. -/
def annotated (metric : Metric) (limit : Float) (points : List TrackPoint) : List TrackPoint :=
  points.take 1 ++ List.zipWith annotate (points.drop 1) (edges metric limit points)

/-- The sum of the speeds, from the first edge to the last. -/
def totalSpeed (edges : List EdgeAnalysis) : Float :=
  edges.foldl (fun total edge => total + edge.speed) 0

/-- The highest speed of a plausible edge, zero if there is none. -/
def maxPlausibleSpeed (edges : List EdgeAnalysis) : Float :=
  (edges.filter fun edge => !edge.isAnomaly).foldl
    (fun highest edge => if highest < edge.speed then edge.speed else highest) 0

/-- The number of anomalies. -/
def anomalies (edges : List EdgeAnalysis) : Nat := edges.countP EdgeAnalysis.isAnomaly

/-- **The analysis of a track,** oldest point first, under a metric and a speed limit. The average
counts every edge, skipped ones included, and the confidence is the part of the points that are
not anomalies. -/
def analyzeWith (metric : Metric) (limit : Float) (driverId : String) (points : List TrackPoint)
    (computedAt : Timestamp) : TrackAnalysis :=
  if points.length < 2 then .insufficient driverId points computedAt
  else
    let verdicts := (edges metric limit points).filterMap id
    { driverId
      points := annotated metric limit points
      averageSpeed := totalSpeed verdicts / Float.ofNat (points.length - 1)
      maxSpeed := maxPlausibleSpeed verdicts
      confidence := 1 - Float.ofNat (anomalies verdicts) / Float.ofNat points.length
      anomalyCount := anomalies verdicts
      computedAt }

/-- The analysis of a track on the globe. -/
def analyze (limit : Float) (driverId : String) (points : List TrackPoint)
    (computedAt : Timestamp) : TrackAnalysis :=
  analyzeWith Position.distanceKm limit driverId points computedAt

end Track

end Fleet
