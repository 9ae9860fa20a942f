import Fleet.Node.Basic
import Fleet.Sim.Oracle

/-!
# A simulated world

A node together with the ground truth of its drivers. The drivers report fixes to the node and the
clock moves in ticks; the forwarder's worker runs when the world settles.
-/

namespace Fleet

/-- How a world is set up. -/
structure WorldConfig where
  seed : UInt64 := 42
  drivers : Nat := 6
  /-- Time between two reports of a driver. -/
  tick : Duration := .ofSeconds 5
  /-- Noise of the fixes in metres. -/
  noise : Float := 5
  latitude : Float := 10
  longitude : Float := 20
  /-- How far from the centre drivers arrive, in degrees. -/
  spread : Float := 0.05
  fleet : Config := {}

/-- **A simulated world.** -/
structure World where
  config : WorldConfig
  node : Node
  oracle : Oracle
  ticks : Nat := 0

namespace World

/-- The part of the seed that belongs to the ground truth. -/
def oraclePart : UInt64 := 0x9e3779b97f4a7c15

/-- A world without drivers, unless the configuration is refused. -/
def new (config : WorldConfig) : Except FleetError World := do
  return {
    config
    node := ← Node.new config.fleet (.memory {})
    oracle := (Oracle.new (Random.deriveSeed config.seed oraclePart)).setNoise config.noise }

/-- The configured drivers arrive. -/
def spawnFleet (w : World) : List String × World :=
  let c := w.config
  let (ids, oracle) := w.oracle.spawnFleet c.drivers c.latitude c.longitude c.spread
  (ids, { w with oracle })

/-- **One tick:** time passes for the node and for the drivers. -/
def tick (w : World) : World :=
  { w with
    node := w.node.advance w.config.tick
    oracle := w.oracle.step w.config.tick.seconds
    ticks := w.ticks + 1 }

/-- Seconds since the start. -/
def time (w : World) : Float := w.node.clock.now.seconds

/-- **A fix is reported to the node.** -/
def report (w : World) (fix : Fix) : Except FleetError World := do
  return { w with node := ← w.node.update fix.driverId fix.latitude fix.longitude }

/-- A fix of every active driver. -/
def fixes (w : World) : List Fix × World :=
  let (fixes, oracle) := w.oracle.fixes
  (fixes, { w with oracle })

/-- How many fixes of a round were accepted and how many refused. -/
structure Tally where
  accepted : Nat := 0
  rejected : Nat := 0
deriving DecidableEq, Repr

/-- Reports one fix after the other and counts what becomes of them. -/
def reportEach (w : World) (fixes : List Fix) : Tally × World :=
  fixes.foldl (fun (tally, w) fix =>
    match w.report fix with
    | .ok w => ({ tally with accepted := tally.accepted + 1 }, w)
    | .error _ => ({ tally with rejected := tally.rejected + 1 }, w)) ({}, w)

/-- **Every active driver reports a fix.** -/
def reportAll (w : World) : Tally × World :=
  let (fixes, w) := w.fixes
  w.reportEach fixes

/-- The counts of the forwarder. -/
def forwarderStats (w : World) : ForwarderStats := w.node.service.forwarder.stats

/-- Whether every queued fix was delivered or failed. -/
def isSettled (w : World) : Bool :=
  let stats := w.forwarderStats
  stats.enqueued ≤ stats.delivered + stats.failed

/-- **The forwarder's worker runs,** and it is told whether it got everything done. -/
def settle (w : World) : Bool × World :=
  let w := { w with node := w.node.settle }
  (w.isSettled, w)

/-- Takes a driver offline. -/
def goOffline (w : World) (id : String) : World := { w with oracle := w.oracle.goOffline id }

/-- Starts or ends an outage of the track store's backend. -/
def setAvailable (w : World) (available : Bool) : World :=
  { w with node := (w.node.command (.backend (.setAvailable available))).2 }

/-- Drops stale drivers, and counts them. -/
def sweep (w : World) : Nat × World :=
  let (count, node) := w.node.sweep
  (count, { w with node })

/-- Runs an operation of the track store on the world's backend. -/
def storeOperation {α : Type} (w : World) (operation : Query Unit (Phase α)) : Outcome α × World :=
  let (outcome, depot) := w.node.depot.perform w.node.clock operation
  (outcome, { w with node := { w.node with depot } })

end World

end Fleet
