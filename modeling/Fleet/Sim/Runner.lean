import Fleet.Sim.Scenario
import Fleet.Sim.Stage

/-!
# The scenarios at work

How each scenario is played, and what it expects. A runner has a seed, a number of drivers and a
duration, which a scenario may extend to the least number of ticks it needs.
-/

namespace Fleet

/-- What scenarios are played with. -/
structure Runner where
  seed : UInt64
  drivers : Nat
  /-- Seconds. -/
  duration : Float

namespace Runner

/-- A runner with at least one driver. -/
def new (seed : UInt64) (drivers : Nat) (duration : Float := 60) : Runner :=
  { seed, drivers := max drivers 1, duration }

/-- The world that scenarios start from. -/
def world (r : Runner) : WorldConfig := { seed := r.seed, drivers := r.drivers }

/-- The ticks that fit into the duration, but never fewer than a scenario needs. -/
def ticks (r : Runner) (least : Nat) : Nat :=
  max (r.duration / r.world.tick.seconds).floor.toUInt64.toNat least

/-- A new world with its drivers. -/
def setUp (config : WorldConfig) : Play (List String × World) := do
  let w ← (World.new config : Except FleetError World)
  return w.spawnFleet

/-- How often the sweeper wakes in the scenario of the silent driver. -/
def sweepInterval : Duration := .ofSeconds 10

/-- The whole sweep intervals in a number of seconds. -/
def sweepsDue (seconds : Float) : Nat := (seconds / sweepInterval.seconds).floor.toUInt64.toNat

/-- Seconds as they stand in a message. -/
def secondsText (seconds : Float) : String := Notation.plain seconds ++ "s"

/-- The sweeper and the worker run until the sweeper has made the passes that are due. -/
def awaitSweeps (sweeper : Sweeper) (w : World) : Play (Sweeper × World) := do
  if sweepsDue w.time ≤ sweeper.sweeps then return (sweeper, w)
  let (_, w) ← Play.settle w
  let (sweeper, service) := sweeper.poll w.node.clock w.node.service
  return (sweeper, { w with node := { w.node with service } })

/-- What must hold of the silent driver at a time. -/
def checkSilent (silent : String) (lastSeen : Position) (w : World) : Play Unit := do
  let present := w.node.service.index.drivers.contains silent
  if w.time ≤ 30 then
    Play.check present (silent ++ " evicted early at t=" ++ secondsText w.time)
  else if 40 ≤ w.time then
    Play.check (!present) (silent ++ " still indexed at t=" ++ secondsText w.time)
    let nearby ← Play.nearest w.node.service.index lastSeen.latitude lastSeen.longitude 50
    Play.check (!nearby.contains silent)
      (silent ++ " returned by nearby query after eviction")

/-- **The silent driver.** Everybody reports once, then one driver falls silent while the others
go on. The sweeper wakes every ten seconds: the silent driver is still there after thirty seconds
and gone after forty, and nobody else ever goes. -/
def staleEviction (r : Runner) : Play Ending := do
  let config := { r.world with fleet.index.cleanupInterval := sweepInterval }
  let (fleet, w) ← setUp config
  let silent := fleet.headD ""
  let (_, w) ← Play.reportAll w
  let lastSeen ← (w.node.service.position silent : Except FleetError Position)
  let mut w := w.goOffline silent
  let mut sweeper := Sweeper.start w.node.clock sweepInterval
  for _ in [0:r.ticks 8] do
    let (woken, next) ← awaitSweeps sweeper w.tick
    sweeper := woken
    checkSilent silent lastSeen next
    let (_, next) ← Play.reportAll next
    w := next
  for id in fleet.tail do
    Play.check (w.node.service.index.drivers.contains id)
      ("reporting driver " ++ id ++ " was evicted")
  Play.count fun m => { m with driversEvicted := sweeper.evicted }
  Play.check (sweeper.evicted = 1)
    ("expected exactly one eviction, saw " ++ Notation.ofNat sweeper.evicted)
  return w.ending

/-- How far a device is thrown off in the scenario of the jump, in kilometres. -/
def jumpKm : Float := 500

/-- How many fixes before the end the jump happens, so that it stays inside the window. -/
def jumpFromEnd : Nat := 4

/-- Whether an estimated location lies between two others, going by latitude. -/
def isBetween (before after : Position) (estimate : Option Position) : Bool :=
  match estimate with
  | none => false
  | some e =>
    (before.latitude < e.latitude || after.latitude < e.latitude)
      && (e.latitude < before.latitude || e.latitude < after.latitude)

/-- What must hold of the point where the jump is. -/
def checkJump (points : List TrackPoint) (jumpTick : Nat) : Play Unit := do
  let missed := Play.check false ("jump at tick " ++ Notation.ofNat jumpTick ++ " not flagged")
  let at_ := points.length - jumpFromEnd
  if at_ = 0 then missed
  else
    match points[at_ - 1]?, points[at_]? with
    | some before, some jump =>
      match jump.analysis.filter EdgeAnalysis.isAnomaly with
      | none => missed
      | some edge =>
        Play.check (isBetween before.position jump.position edge.estimatedLocation)
          "estimated location not between fixes"
        Play.check (edge.confidence < 1) "anomaly at full confidence"
    | _, _ => missed

/-- What must hold of the analysis of every track. -/
def checkAnomalies (fleet : List String) (victim : String) (w : World) : Play World := do
  let mut w := w
  for id in fleet do
    let (outcome, next) := w.storeOperation (TrackPolicy.latest id)
    w := next
    if let some analysis ← Play.answered outcome then
      let flagged := analysis.anomalyCount
      Play.count fun m => { m with anomaliesDetected := m.anomaliesDetected + flagged }
      if id = victim then
        let injected := (← get).metrics.glitchesInjected
        Play.check (injected ≤ flagged)
          (Notation.ofNat injected ++ " glitches injected, " ++ Notation.ofNat flagged
            ++ " anomalies flagged")
      else
        Play.check (flagged = 0)
          ("clean driver " ++ id ++ " has " ++ Notation.ofNat flagged ++ " anomalies")
  return w

/-- **The jump.** One fix of one driver is thrown off by five hundred kilometres. The analysis of
its track flags it with an estimated location between the two fixes, and flags nothing in other
tracks. -/
def gpsTeleport (r : Runner) : Play Ending := do
  let (fleet, w) ← setUp r.world
  let victim := fleet.headD ""
  let ticks := r.ticks 8
  let jumpTick := ticks - jumpFromEnd
  let mut w := w
  for tick in [0:ticks] do
    let (fixes, next) := w.fixes
    w := next
    for fix in fixes do
      let isJump := tick = jumpTick && fix.driverId = victim
      let fix := if isJump then (w.oracle.glitch? victim jumpKm).getD fix else fix
      if fix.isGlitch then
        Play.count fun m => { m with glitchesInjected := m.glitchesInjected + 1 }
      w ← Play.report w fix
    w := w.tick
  let (settled, next) ← Play.settle w
  Play.check settled "forwarder did not drain"
  w := next
  let delivered := w.forwarderStats.delivered
  Play.count fun m => { m with fixesForwarded := delivered }
  let (outcome, node) := w.node.track victim 1000
  w := { w with node }
  checkJump (← Play.answered outcome) jumpTick
  w ← checkAnomalies fleet victim w
  return w.ending

/-- A list of ids as it stands in a message. -/
def idsText (ids : List String) : String :=
  "[" ++ ", ".intercalate (ids.map fun id => "\"" ++ id ++ "\"") ++ "]"

/-- A cell as it stands in a message. -/
def cellText (c : Cell) : String :=
  "BucketKey \x7b lat: " ++ Notation.ofInt c.lat.toInt ++ ", lon: " ++ Notation.ofInt c.lon.toInt
    ++ " \x7d"

/-- The index after a position that must be accepted. -/
def placed (ix : Index) (id : String) (latitude longitude : Float) : Play Index := do
  let (_, ix) ← (ix.update id latitude longitude 0 : Except FleetError (Position × Index))
  return ix

/-- What must hold of the answer to a search: no more than asked for, and nearest first. -/
def checkSearch (label : String) (ix : Index) (latitude longitude : Float) (limit : Nat)
    (ids : List String) : Play Unit := do
  Play.check (ids.length ≤ limit) (label ++ " search exceeded limit")
  let mut last : Float := 0
  for id in ids do
    match ix.lookup id with
    | none => Play.check false (label ++ " returned unknown " ++ id)
    | some p =>
      let distance := Geo.haversineKm latitude longitude p.latitude p.longitude
      Play.check (last ≤ distance) (label ++ " results out of order")
      last := distance

/-- What must hold of an exact search: everybody found is in the cell of the query. -/
def checkExact (ix : Index) (home : Cell) (ids : List String) : Play Unit := do
  for id in ids do
    if let some p := ix.lookup id then
      let cell := ix.cellOf p.latitude p.longitude
      Play.check (cell = home) (id ++ " returned from bucket " ++ cellText cell)

/-- A random coordinate close to the edge of a cell. -/
def drawEdge (size : Float) : Draw (Float × Float) := do
  let lat := Float.ofNat (← Draw.narrowRange 1000 1004) * size
  let lon := Float.ofNat (← Draw.narrowRange 2000 2004) * size
  let north ← Draw.range (-0.0005) 0.0005
  let east ← Draw.range (-0.0005) 0.0005
  return (lat + north, lon + east)

/-- A random query with a limit. -/
def drawQuery : Draw (Float × Float × Nat) := do
  let latitude ← Draw.range 10 10.04
  let longitude ← Draw.range 20 20.04
  return (latitude, longitude, ← Draw.wideRange 1 8)

/-- **The edges of cells.** Two indexes hold the same drivers close to the edges of cells; one
searches the cells around too. The exact search stays in its cell, both answers are nearest first,
and a pinned case shows the difference. -/
def bucketBoundary (r : Runner) : Play Ending := do
  let config : IndexConfig := {}
  let mut exact := Index.new config
  let mut wide := Index.new { config with neighborSearch := true }
  for (id, latitude, longitude) in [("inside", 10.001, 20.001), ("across", 10.011, 20.011)] do
    exact ← placed exact id latitude longitude
    wide ← placed wide id latitude longitude
  let pinnedExact ← Play.nearest exact 10.009 20.009 10
  let pinnedWide ← Play.nearest wide 10.009 20.009 10
  Play.check (pinnedExact = ["inside"]) ("exact search returned " ++ idsText pinnedExact)
  Play.check (pinnedWide = ["across", "inside"])
    ("neighbour search returned " ++ idsText pinnedWide)
  let mut random := Random.seeded r.seed
  for i in [0:r.drivers * 20] do
    let ((latitude, longitude), next) := (drawEdge config.cellSize).run random
    random := next
    let id := "edge-" ++ Notation.ofNat i
    exact ← placed exact id latitude longitude
    wide ← placed wide id latitude longitude
    Play.count fun m => { m with updatesSent := m.updatesSent + 1 }
  let ticks := r.ticks 20
  for _ in [0:ticks] do
    let ((latitude, longitude, limit), next) := drawQuery.run random
    random := next
    let narrow ← Play.nearest exact latitude longitude limit
    let broad ← Play.nearest wide latitude longitude limit
    checkSearch "exact" exact latitude longitude limit narrow
    checkSearch "wide" wide latitude longitude limit broad
    checkExact exact (exact.cellOf latitude longitude) narrow
    if broad.head? ≠ narrow.head? then
      Play.count fun m => { m with boundaryMisses := m.boundaryMisses + 1 }
  return { ticks, time := 0, drivers := exact.size }

/-- The searches of one reader during the rush hour: how many drivers it found at most. -/
def readerSearches (w : World) (reader : Nat) : Play Unit := do
  let offset := Float.ofNat reader * 0.002
  let c := w.config
  for _ in [0:10] do
    let ids ← Play.nearest w.node.service.index (c.latitude + offset) (c.longitude - offset) 5
    Play.check (ids.length ≤ 5) "query exceeded limit"

/-- What must hold after the reports of a round: the index has every driver's last fix. -/
def checkPositions (w : World) (fixes : List Fix) : Play Unit := do
  for fix in fixes do
    let p ← (w.node.service.position fix.driverId : Except FleetError Position)
    Play.check (p.latitude == fix.latitude && p.longitude == fix.longitude)
      (fix.driverId ++ " lost its last update")

/-- **The rush hour.** Many drivers report in one district while searches run, and for one tick
the backend of the track store is out. No report and no search fails, and the fixes lost in the
outage are counted as failed. Reports, searches and the worker take turns here, in this order. -/
def rushHour (r : Runner) : Play Ending := do
  let config := { r.world with drivers := r.drivers * 50, spread := 0.02 }
  let (_, w) ← setUp config
  let ticks := r.ticks 6
  let mut w := w
  for tick in [0:ticks] do
    if tick = ticks / 2 then w := w.setAvailable false
    let (fixes, next) := w.fixes
    w := next
    for fix in fixes do
      w ← Play.report w fix
    for reader in [0:8] do
      readerSearches w reader
    checkPositions w fixes
    let (settled, next) ← Play.settle w
    Play.check settled "forwarder stuck during outage"
    w := (next.setAvailable true).tick
  let stats := w.node.service.stats
  Play.count fun m =>
    { m with
      fixesForwarded := stats.forwarder.delivered
      fixesDropped := stats.forwarder.droppedFull }
  Play.check (0 < stats.forwarder.failed) "store outage went unnoticed"
  Play.check (stats.index.drivers = config.drivers)
    ("index holds " ++ Notation.ofNat stats.index.drivers ++ " of " ++ Notation.ofNat config.drivers
      ++ " drivers")
  return w.ending

/-- Whether a track is in the order of time. -/
def isOrdered : List TrackPoint → Bool
  | p :: q :: rest => p.position.observedAt < q.position.observedAt && isOrdered (q :: rest)
  | _ => true

/-- What must hold of the counts of the forwarder at the end of the flood. -/
def checkFlood (stats : ForwarderStats) : Play Unit := do
  let sent := (← get).metrics.updatesSent
  Play.check (0 < stats.droppedFull) "queue never overflowed"
  Play.check (stats.enqueued + stats.droppedFull = sent)
    (Notation.ofNat stats.enqueued ++ " enqueued + " ++ Notation.ofNat stats.droppedFull
      ++ " dropped != " ++ Notation.ofNat sent ++ " sent")
  Play.check (stats.delivered = stats.enqueued)
    (Notation.ofNat stats.delivered ++ " of " ++ Notation.ofNat stats.enqueued
      ++ " queued fixes delivered")

/-- **The flood.** Many drivers report in a burst while the queue holds eight. No report fails,
what does not fit is dropped and counted, and what was queued reaches the track store in order. -/
def queueFlood (r : Runner) : Play Ending := do
  let config :=
    { r.world with drivers := r.drivers * 10, fleet.forwarder.queueCapacity := 8 }
  let (fleet, w) ← setUp config
  let mut w := w
  for _ in [0:r.ticks 4] do
    let (rejected, next) ← Play.reportAll w
    Play.check (rejected = 0) (Notation.ofNat rejected ++ " updates failed during flood")
    let (settled, next) ← Play.settle next
    Play.check settled "forwarder did not drain"
    w := next.tick
  let stats := w.forwarderStats
  Play.count fun m =>
    { m with fixesForwarded := stats.delivered, fixesDropped := stats.droppedFull }
  checkFlood stats
  let indexed := w.node.service.index.size
  Play.check (indexed = fleet.length)
    ("index holds " ++ Notation.ofNat indexed ++ " of " ++ Notation.ofNat fleet.length
      ++ " drivers")
  for id in fleet do
    let (outcome, next) := w.storeOperation (TrackPolicy.recent id 1000)
    w := next
    Play.check (isOrdered (← Play.answered outcome)) ("fixes for " ++ id ++ " stored out of order")
  return w.ending

/-- How a scenario is played. -/
def play (r : Runner) : Scenario → Play Ending
  | .staleEviction => r.staleEviction
  | .gpsTeleport => r.gpsTeleport
  | .bucketBoundary => r.bucketBoundary
  | .rushHour => r.rushHour
  | .queueFlood => r.queueFlood

end Runner

/-- **What came of a scenario.** -/
structure ScenarioResult where
  scenario : Scenario
  seed : UInt64
  ending : Ending
  failure : Option String
  metrics : Metrics

/-- Whether everything held that a scenario expects. -/
def ScenarioResult.passed (r : ScenarioResult) : Bool := r.failure.isNone

/-- **Plays a scenario.** An error of the library counts as a failure, with an empty ending. -/
def Runner.run (r : Runner) (scenario : Scenario) : ScenarioResult :=
  let (outcome, stage) := ((r.play scenario).run).run {}
  match outcome with
  | .ok ending =>
    { scenario, seed := r.seed, ending, failure := stage.failure, metrics := stage.metrics }
  | .error e =>
    { scenario, seed := r.seed, ending := ⟨0, 0, 0⟩
      failure := some ("setup failed: " ++ e.message), metrics := stage.metrics }

end Fleet
