import Fleet.Error

/-!
# Scenarios

The scenarios that can be played and the names by which they are known.
-/

namespace Fleet

/-- **A scenario.** -/
inductive Scenario where
  /-- A silent driver is dropped by the sweeper. -/
  | staleEviction
  /-- A jump in a track is flagged by its analysis. -/
  | gpsTeleport
  /-- Searches across the edges of cells, with and without the cells around. -/
  | bucketBoundary
  /-- Many reports and searches in one district. -/
  | rushHour
  /-- The forwarder's queue overflows. -/
  | queueFlood
deriving DecidableEq, Repr

namespace Scenario

/-- All scenarios. -/
def all : List Scenario := [staleEviction, gpsTeleport, bucketBoundary, rushHour, queueFlood]

/-- The name of a scenario. -/
def name : Scenario → String
  | staleEviction => "stale_eviction"
  | gpsTeleport => "gps_teleport"
  | bucketBoundary => "bucket_boundary"
  | rushHour => "rush_hour"
  | queueFlood => "queue_flood"

/-- The number by which a scenario is also known. -/
def number : Scenario → String
  | staleEviction => "dst-001"
  | gpsTeleport => "dst-002"
  | bucketBoundary => "dst-003"
  | rushHour => "dst-004"
  | queueFlood => "dst-005"

/-- What happens in a scenario. -/
def description : Scenario → String
  | staleEviction => "Driver goes silent at t=0, gone from queries once the 30s timeout is swept"
  | gpsTeleport => "One fix jumps 500km, analysis flags it and estimates a plausible location"
  | bucketBoundary =>
    "Drivers a few metres across a bucket edge are missed unless neighbour search is on"
  | rushHour => "Hundreds of drivers in one district, parallel updates and nearest-K reads"
  | queueFlood => "Burst of updates overflows the forward queue without failing any update"

/-- The names that a scenario answers to: its name, with and without underscores, and its
number. -/
def aliases (s : Scenario) : List String :=
  [s.name, .ofList (s.name.toList.filter (· ≠ '_')), s.number]

/-- The Kelvin sign, the one character beyond ASCII whose lower case is an ASCII letter. -/
def kelvinSign : Char := Char.ofNat 0x212A

/-- A name in lower case, as far as the names of scenarios go. -/
def lowered (name : String) : String :=
  name.map fun c => if c = kelvinSign then 'k' else c.toLower

/-- **The scenario that answers to a name,** in any mixture of cases. -/
def ofName? (name : String) : Option Scenario :=
  all.find? fun s => s.aliases.contains (lowered name)

/-- The complaint about a name that no scenario answers to. -/
def unknown (name : String) : String := "Unknown scenario: " ++ name

end Scenario

end Fleet
