import Fleet.Error

/-!
# Configuration

Settings of the index, the analyzer, the track store and the forwarder, with their defaults, and
the check that refuses the values none of them can work with.
-/

namespace Fleet

/-- Settings of the location index. -/
structure IndexConfig where
  /-- Edge of a grid cell in degrees. -/
  cellSize : Float := 0.01
  /-- Age beyond which a position is stale. -/
  staleTimeout : Duration := .ofSeconds 30
  /-- Time between two sweeps. -/
  cleanupInterval : Duration := .ofSeconds 300
  /-- Whether a search also looks into the eight cells around the query's. -/
  neighborSearch : Bool := false
deriving DecidableEq

/-- Settings of the track store. -/
structure StoreConfig where
  /-- Points per analysis. -/
  windowSize : Nat := 100
  /-- Points kept per driver. -/
  maxPointsRetained : Nat := 1000
  /-- Lifetime of a stored analysis. -/
  analysisTtl : Duration := .ofSeconds 86400
deriving DecidableEq

/-- Settings of the forwarder. -/
structure ForwarderConfig where
  /-- Fixes that may wait at once. -/
  queueCapacity : Nat := 1024
  /-- Time allowed for one delivery. -/
  sendTimeout : Duration := .ofSeconds 1
deriving DecidableEq

/-- **The whole configuration.** -/
structure Config where
  index : IndexConfig := {}
  /-- Speed in km/h above which a track edge is an anomaly. -/
  maxReasonableSpeed : Float := 200
  store : StoreConfig := {}
  forwarder : ForwarderConfig := {}
  /-- Time allowed for one request. -/
  requestTimeout : Duration := .ofSeconds 1
deriving DecidableEq

namespace Config

/-- Whether a setting is a number greater than zero. -/
def isPositive (x : Float) : Bool := x.isFinite && !(x ≤ 0)

/-- The durations that must not be zero, by name, in the order in which they are checked. -/
def positiveDurations (c : Config) : List (String × Duration) :=
  [("stale timeout", c.index.staleTimeout), ("cleanup interval", c.index.cleanupInterval),
    ("send timeout", c.forwarder.sendTimeout), ("request timeout", c.requestTimeout)]

/-- The first fault of a configuration, in the order in which settings are checked. -/
def fault? (c : Config) : Option ConfigFault :=
  if !isPositive c.index.cellSize then some (.cellSize c.index.cellSize)
  else if !isPositive c.maxReasonableSpeed then some (.speedLimit c.maxReasonableSpeed)
  else if c.store.windowSize = 0 then some .emptyWindow
  else if c.store.maxPointsRetained < c.store.windowSize then
    some (.retention c.store.maxPointsRetained c.store.windowSize)
  else if c.forwarder.queueCapacity = 0 then some .queueCapacity
  else (c.positiveDurations.find? fun d => d.2 = .zero).map fun d => .zeroDuration d.1

/-- Refuses a configuration that has a fault. -/
def validate (c : Config) : Except FleetError Unit :=
  match c.fault? with
  | some fault => .error (.invalidConfig fault)
  | none => .ok ()

end Config

end Fleet
