import Fleet.Config
import Fleet.Store.Session
import Fleet.Track.Analyzer
import Fleet.Wire.Track

/-!
# Operations on tracks

A driver's track is a list in the backend, newest point first, and its analysis a value that
expires. While an operation is at work on a driver it leases the driver's slot, which counts the
appended points and remembers whether the stored analysis lags behind. An operation is a session
without a slot, followed by one with the slot of a driver if it needs it.
-/

namespace Fleet

/-- **What is known of a driver's track while it is worked on.** -/
structure Slot where
  /-- How many points were appended; wraps at `2^64`. -/
  sequence : UInt64 := 0
  /-- Whether the count takes the stored analysis into account. -/
  isLoaded : Bool := false
  /-- Whether points were appended that the stored analysis does not cover. -/
  isDirty : Bool := false
deriving DecidableEq, Repr

/-- What the first part of an operation comes to. -/
inductive Phase (α : Type) where
  | answered (a : α)
  /-- The rest needs the slot of a driver. -/
  | leased (driverId : String) (rest : Query Slot α)

/-- How tracks are kept and analyzed. -/
structure TrackPolicy extends StoreConfig where
  speedLimit : Float
  /-- The functions with which distances are measured. -/
  trigonometry : Trigonometry := .machine

/-- The part of a configuration that concerns tracks. -/
def Config.trackPolicy (c : Config) (trigonometry : Trigonometry := .machine) : TrackPolicy :=
  { c.store with speedLimit := c.maxReasonableSpeed, trigonometry }

namespace TrackPolicy

/-- Where a driver's points are. -/
def pointsKey (driverId : String) : String := "track:points:" ++ driverId

/-- Where a driver's analysis is. -/
def analysisKey (driverId : String) : String := "track:analysis:" ++ driverId

/-- A record that was read, or the failure to read it. -/
def readable {σ α : Type} (record : Option α) : Query σ α :=
  Query.orFail (.internal .unreadableRecord) record

/-- The newest points of a driver, oldest of them first. -/
def recentPoints {σ : Type} (driverId : String) (count : Nat) : Query σ (List TrackPoint) := do
  let records : List Bytes ← Query.request (.range (pointsKey driverId) count)
  return (← readable (records.mapM Wire.read?)).reverse

/-- The stored analysis of a driver. -/
def latestAnalysis {σ : Type} (driverId : String) : Query σ (Option TrackAnalysis) := do
  let record : Option Bytes ← Query.request (.get (analysisKey driverId))
  match record with
  | none => return none
  | some bytes => return some (← readable (Wire.read? bytes))

/-- Makes the slot's count take the stored analysis into account, once. -/
def load (driverId : String) : Query Slot Unit := do
  if (← get).isLoaded then return
  let stored ← latestAnalysis driverId
  modify fun slot =>
    { slot with
      sequence := (stored.elim slot.sequence fun a => max slot.sequence a.sequence)
      isLoaded := true }

/-- The analysis of a driver's points under the policy. -/
def analyze (p : TrackPolicy) (driverId : String) (points : List TrackPoint)
    (computedAt : Timestamp) : TrackAnalysis :=
  Track.analyzeWith p.trigonometry.distanceKm p.speedLimit driverId points computedAt

/-- The analysis of the newest points, computed at the time `now`. -/
def analyzeWindow {σ : Type} (p : TrackPolicy) (now : Timestamp) (driverId : String)
    (sequence : UInt64) : Query σ TrackAnalysis := do
  let window ← recentPoints driverId p.windowSize
  return { p.analyze driverId window now with sequence }

/-- Stores an analysis unless a newer one is there, and tells whether it did. -/
def storeAnalysis {σ : Type} (p : TrackPolicy) (analysis : TrackAnalysis) : Query σ Bool := do
  if let some stored ← latestAnalysis analysis.driverId then
    if analysis.sequence < stored.sequence then return false
  Query.request (.set (analysisKey analysis.driverId) (Wire.write analysis) (some p.analysisTtl))
  return true

/-- Stores a fresh analysis; the slot is clean if it is stored. -/
def saveFresh (p : TrackPolicy) (analysis : TrackAnalysis) : Query Slot Unit := do
  if ← p.storeAnalysis analysis then modify fun slot => { slot with isDirty := false }

/-- Appends a point under the lease of its driver. The slot counts the point as soon as the
backend has it, so an append that fails or stops later leaves the slot dirty. -/
def appendLeased (p : TrackPolicy) (now : Timestamp) (point : TrackPoint) :
    Query Slot TrackAnalysis := do
  load point.driverId
  let key := pointsKey point.driverId
  let count : Nat ← Query.request (.pushFront key (Wire.write point))
  modify fun slot => { slot with sequence := slot.sequence + 1, isDirty := true }
  if p.maxPointsRetained < count then
    let _ : Nat ← Query.request (.trim key p.maxPointsRetained)
  let analysis ← p.analyzeWindow now point.driverId (← get).sequence
  p.saveFresh analysis
  return analysis

/-- **Appends a point to its driver's track** and analyzes the window that it completes. -/
def append (p : TrackPolicy) (now : Timestamp) (point : TrackPoint) :
    Query Unit (Phase TrackAnalysis) := do
  if point.driverId.isEmpty then throw (.invalidInput .emptyDriverId)
  if let .error e := Geo.validate point.position.latitude point.position.longitude then throw e
  return .leased point.driverId (p.appendLeased now point)

/-- **Appends a point on behalf of a driver,** which must be its own. -/
def ingest (p : TrackPolicy) (now : Timestamp) (driverId : String) (point : TrackPoint) :
    Query Unit (Phase TrackAnalysis) := do
  if point.driverId ≠ driverId then throw (.invalidInput (.foreignPoint point.driverId driverId))
  p.append now point

/-- **The newest points of a driver as they are stored.** -/
def recent (driverId : String) (count : Nat) : Query Unit (Phase (List TrackPoint)) :=
  Phase.answered <$> recentPoints driverId count

/-- **The stored analysis of a driver.** -/
def latest (driverId : String) : Query Unit (Phase (Option TrackAnalysis)) :=
  Phase.answered <$> latestAnalysis driverId

/-- **Offers an analysis to be stored.** The slot is leased but not changed. -/
def save (p : TrackPolicy) (analysis : TrackAnalysis) : Query Unit (Phase Bool) :=
  return .leased analysis.driverId (p.storeAnalysis analysis)

/-- The analysis of a driver under its lease. The stored one is used if it covers every point. -/
def currentAnalysis (p : TrackPolicy) (now : Timestamp) (driverId : String) :
    Query Slot TrackAnalysis := do
  load driverId
  let stored ← latestAnalysis driverId
  let slot ← get
  match stored.filter fun a => !slot.isDirty && a.sequence = slot.sequence with
  | some analysis => return analysis
  | none =>
    let analysis ← p.analyzeWindow now driverId slot.sequence
    p.saveFresh analysis
    return analysis

/-- **The newest points of a driver with their analysis,** never more than the window holds. A
driver without points has no analysis, and nothing is stored for it. -/
def analyzed (p : TrackPolicy) (now : Timestamp) (driverId : String) (count : Nat) :
    Query Unit (Phase (List TrackPoint)) := do
  if driverId.isEmpty then throw (.invalidInput .emptyDriverId)
  if count = 0 then throw (.invalidInput .zeroCount)
  let newest : List Bytes ← Query.request (.range (pointsKey driverId) 1)
  if newest.isEmpty then return .answered []
  return .leased driverId do
    return (← p.currentAnalysis now driverId).lastPoints (min count p.windowSize)

end TrackPolicy

end Fleet
