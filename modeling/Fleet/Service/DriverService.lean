import Fleet.Forward.Forwarder
import Fleet.Index.Nearest
import Fleet.Wire.Service

/-!
# The driver service

The index together with the forwarder of accepted positions. The index answers every request by
itself; what becomes of a forwarded position is never seen by the one who reported it.
-/

namespace Fleet

/-- **The driver service.** -/
structure DriverService where
  requestTimeout : Duration
  index : Index
  forwarder : Forwarder

namespace DriverService

/-- A service without drivers, unless the configuration is refused. -/
def new (config : Config) (trigonometry : Trigonometry := .machine) :
    Except FleetError DriverService := do
  config.validate
  return {
    requestTimeout := config.requestTimeout
    index := .new config.index trigonometry
    forwarder := .new config.forwarder }

/-- The envelope that carries a position to the track store. -/
def envelope (driverId : String) (position : Position) (sentAt : Timestamp) : Envelope where
  driverId; sentAt
  payload := Wire.write ({ driverId, position } : TrackPoint)

/-- The first step of an update: the index takes the position. -/
def record (s : DriverService) (now : Timestamp) (driverId : String) (latitude longitude : Float) :
    Except FleetError (Position × DriverService) := do
  let (position, index) ← s.index.update driverId latitude longitude now
  return (position, { s with index })

/-- The second step of an update: the position is queued. -/
def forward (s : DriverService) (now : Timestamp) (driverId : String) (position : Position) :
    DriverService :=
  { s with forwarder := (s.forwarder.forward (envelope driverId position now)).2 }

/-- **Takes the position of a driver at the time `now`** and forwards it. A position that the
index refuses is not forwarded. -/
def update (s : DriverService) (now : Timestamp) (driverId : String) (latitude longitude : Float) :
    Except FleetError DriverService := do
  let (position, s) ← s.record now driverId latitude longitude
  return s.forward now driverId position

/-- **The drivers nearest to a coordinate,** and the service after the search. -/
def nearby (s : DriverService) (latitude longitude : Float) (limit : Nat) :
    Except FleetError (List String) × DriverService :=
  (s.index.nearest latitude longitude limit,
    { s with index := s.index.afterNearest latitude longitude limit })

/-- **The last position of a driver.** -/
def position (s : DriverService) (driverId : String) : Except FleetError Position :=
  match s.index.lookup driverId with
  | some position => .ok position
  | none => .error (.notFound driverId)

/-- **Drops a driver,** and tells whether it was there. -/
def remove (s : DriverService) (driverId : String) : Bool × DriverService :=
  (s.index.drivers.contains driverId, { s with index := s.index.remove driverId })

/-- Every driver with its status at the time `now`. -/
def drivers (s : DriverService) (now : Timestamp) : List DriverRecord := s.index.records now

/-- The counts of the index and of the forwarder. -/
def stats (s : DriverService) : ServiceStats where
  index := s.index.stats
  forwarder := s.forwarder.stats

/-- **Drops the drivers that are stale at the time `now`,** and counts them. -/
def sweep (s : DriverService) (now : Timestamp) : Nat × DriverService :=
  let (count, index) := s.index.sweepStale now
  (count, { s with index })

/-- The worker of the forwarder runs as far as it can. -/
def work {σ : Type} (s : DriverService) (sink : Sink σ) (sinkState : σ) : DriverService × σ :=
  let (forwarder, sinkState) := s.forwarder.work sink sinkState
  ({ s with forwarder }, sinkState)

/-- The worker of the forwarder takes a turn of so many deliveries at most. -/
def turn {σ : Type} (deliveries : Nat) (s : DriverService) (sink : Sink σ) (sinkState : σ) :
    DriverService × σ :=
  let (forwarder, sinkState) := s.forwarder.rounds sink deliveries sinkState
  ({ s with forwarder }, sinkState)

end DriverService

end Fleet
