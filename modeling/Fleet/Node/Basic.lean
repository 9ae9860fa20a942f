import Fleet.Service.DriverService
import Fleet.Store.Depot

/-!
# A node

The driver service whose positions are forwarded to a track store, on one clock.
-/

namespace Fleet

/-- **A node.** -/
structure Node where
  clock : Clock
  service : DriverService
  depot : Depot

namespace Node

/-- A node without drivers on a backend without tracks, unless the configuration is refused. -/
def new (config : Config) (storage : Storage) (trigonometry : Trigonometry := .machine) :
    Except FleetError Node := do
  return {
    clock := .start
    service := ← DriverService.new config trigonometry
    depot := { store := .new (config.trackPolicy trigonometry), backend := { storage } } }

/-- The Unix time of the node. -/
def now (n : Node) : Timestamp := n.clock.timestamp

/-- Time passes. -/
def advance (n : Node) (step : Duration) : Node := { n with clock := n.clock.advance step }

/-- Takes the position of a driver. -/
def update (n : Node) (driverId : String) (latitude longitude : Float) :
    Except FleetError Node := do
  return { n with service := ← n.service.update n.now driverId latitude longitude }

/-- The drivers nearest to a coordinate. -/
def nearby (n : Node) (latitude longitude : Float) (limit : Nat) :
    Except FleetError (List String) × Node :=
  let (found, service) := n.service.nearby latitude longitude limit
  (found, { n with service })

/-- Drops a driver, and tells whether it was there. -/
def remove (n : Node) (driverId : String) : Bool × Node :=
  let (wasPresent, service) := n.service.remove driverId
  (wasPresent, { n with service })

/-- Drops stale drivers, and counts them. -/
def sweep (n : Node) : Nat × Node :=
  let (count, service) := n.service.sweep n.now
  (count, { n with service })

/-- Takes in a point of a driver's own track. -/
def ingest (n : Node) (point : TrackPoint) : Outcome TrackAnalysis × Node :=
  let (outcome, depot) := n.depot.ingest n.clock point.driverId point
  (outcome, { n with depot })

/-- The newest points of a driver with their analysis. -/
def track (n : Node) (driverId : String) (count : Nat) : Outcome (List TrackPoint) × Node :=
  let (outcome, depot) := n.depot.analyzed n.clock driverId count
  (outcome, { n with depot })

/-- One command to the track store or its backend. -/
def command (n : Node) (c : Depot.Command) : Depot.Answer × Node :=
  let (answer, depot) := n.depot.run n.clock c
  (answer, { n with depot })

/-- **The forwarder's worker runs until nothing is queued.** While the backend is stalled it
waits. -/
def settle (n : Node) : Node :=
  if n.depot.backend.stalled then n
  else
    let (service, depot) := n.service.work (Depot.deliver n.clock) n.depot
    { n with service, depot }

/-- The forwarder's worker takes a turn of so many deliveries at most. -/
def turn (n : Node) (deliveries : Nat) : Node :=
  if n.depot.backend.stalled then n
  else
    let (service, depot) := n.service.turn deliveries (Depot.deliver n.clock) n.depot
    { n with service, depot }

end Node

end Fleet
