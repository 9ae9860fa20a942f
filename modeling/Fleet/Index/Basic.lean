import Fleet.Config
import Fleet.Geo.Cell
import Fleet.Table

/-!
# The location index

The last known position of every driver, and for every grid cell the drivers in it in the order in
which they entered. A change of a driver's cell moves it between the lists; a cell without drivers
has no list.
-/

namespace Fleet

/-- Whether a driver is due to be evicted. -/
inductive DriverStatus where
  | active
  | stalePendingEviction
deriving DecidableEq, Repr

/-- A driver as reported to callers. -/
structure DriverRecord where
  driverId : String
  lastPosition : Position
  status : DriverStatus
deriving DecidableEq

/-- Counts of an index. -/
structure IndexStats where
  drivers : Nat
  cells : Nat
  driversPerCell : Float
  cellSize : Float
deriving DecidableEq

/-- A driver's last position and the cell that lists the driver. -/
structure Placement where
  position : Position
  cell : Cell
deriving DecidableEq

/-- **The location index.** -/
structure Index where
  config : IndexConfig
  /-- The functions with which distances are measured. -/
  trigonometry : Trigonometry := .machine
  drivers : Table String Placement := ∅
  members : Table Cell (List String) := ∅

namespace Index

/-- The index without drivers. -/
def new (config : IndexConfig) (trigonometry : Trigonometry := .machine) : Index :=
  { config, trigonometry }

/-- The cell that holds a coordinate. -/
def cellOf (ix : Index) (latitude longitude : Float) : Cell :=
  Cell.of latitude longitude ix.config.cellSize

/-- The drivers a cell lists, in the order in which they entered it. -/
def driversIn (ix : Index) (cell : Cell) : List String := (ix.members.get? cell).getD []

/-- The last known position of a driver. -/
def lookup (ix : Index) (driverId : String) : Option Position :=
  (ix.drivers.get? driverId).map Placement.position

/-- The number of drivers. -/
def size (ix : Index) : Nat := ix.drivers.size

/-- Whether there are no drivers. -/
def isEmpty (ix : Index) : Bool := ix.size = 0

/-- Cell lists with a driver added at the end of a cell's list. -/
def link (members : Table Cell (List String)) (cell : Cell) (driverId : String) :
    Table Cell (List String) :=
  members.insert cell ((members.get? cell).getD [] ++ [driverId])

/-- Cell lists with a driver taken off a cell's list, and the list dropped if nobody is left. -/
def unlink (members : Table Cell (List String)) (cell : Cell) (driverId : String) :
    Table Cell (List String) :=
  match members.get? cell with
  | none => members
  | some ids =>
    let rest := ids.filter (· ≠ driverId)
    if rest.isEmpty then members.erase cell else members.insert cell rest

/-- Sets a driver's position. Within one cell the driver keeps its place in the list. -/
def place (ix : Index) (driverId : String) (position : Position) : Index :=
  let cell := ix.cellOf position.latitude position.longitude
  { ix with
    drivers := ix.drivers.insert driverId ⟨position, cell⟩
    members :=
      match ix.drivers.get? driverId with
      | none => link ix.members cell driverId
      | some old =>
        if old.cell = cell then ix.members
        else link (unlink ix.members old.cell driverId) cell driverId }

/-- **Records a position.** A driver without an id and an invalid coordinate are refused. -/
def update (ix : Index) (driverId : String) (latitude longitude : Float) (observedAt : Timestamp) :
    Except FleetError (Position × Index) := do
  if driverId.isEmpty then throw (.invalidInput .emptyDriverId)
  let position ← Position.make latitude longitude observedAt
  return (position, ix.place driverId position)

/-- **Drops a driver.** -/
def remove (ix : Index) (driverId : String) : Index :=
  match ix.drivers.get? driverId with
  | none => ix
  | some old =>
    { ix with
      drivers := ix.drivers.erase driverId
      members := unlink ix.members old.cell driverId }

/-- The drivers whose position is older than `limit` at the time `now`. -/
def stale (ix : Index) (now : Timestamp) (limit : Duration) : List String :=
  (ix.drivers.entries.filter fun e => e.2.position.isStale now limit).map Prod.fst

/-- **Drops every driver whose position is older than `limit`,** and counts them. -/
def sweep (ix : Index) (now : Timestamp) (limit : Duration) : Nat × Index :=
  let gone := ix.stale now limit
  (gone.length, gone.foldl remove ix)

/-- The sweep with the configured age. -/
def sweepStale (ix : Index) (now : Timestamp) : Nat × Index :=
  ix.sweep now ix.config.staleTimeout

/-- The status of a position at the time `now`. -/
def statusAt (ix : Index) (now : Timestamp) (position : Position) : DriverStatus :=
  if position.isStale now ix.config.staleTimeout then .stalePendingEviction else .active

/-- Every driver with its status at the time `now`, in order of arrival. -/
def records (ix : Index) (now : Timestamp) : List DriverRecord :=
  ix.drivers.entries.map fun e => ⟨e.1, e.2.position, ix.statusAt now e.2.position⟩

/-- The counts of the index. -/
def stats (ix : Index) : IndexStats where
  drivers := ix.drivers.size
  cells := ix.members.size
  driversPerCell :=
    if ix.members.size = 0 then 0
    else Float.ofNat ix.drivers.size / Float.ofNat ix.members.size
  cellSize := ix.config.cellSize

end Index

end Fleet
