import Fleet.Index.Basic

/-!
# Nearest drivers

A search looks into the cell of the query, or also into the eight cells around it, and ranks the
drivers listed there by distance. Equally distant drivers stay in the order in which they were
found.
-/

namespace Fleet.Index

/-- A driver found by a search, with its distance in kilometres. -/
structure Candidate where
  driverId : String
  distance : Float
deriving DecidableEq

/-- The cells a search looks into. -/
def scannedCells (ix : Index) (latitude longitude : Float) : List Cell :=
  let home := ix.cellOf latitude longitude
  if ix.config.neighborSearch then home.neighborhood else [home]

/-- Whether a driver's placement belongs to the cell that lists it. -/
def belongs (ix : Index) (cell : Cell) (placement : Placement) : Bool :=
  placement.cell = cell
    && ix.cellOf placement.position.latitude placement.position.longitude = cell

/-- The placement of a listed driver, if its cell lists it rightly. -/
def placement? (ix : Index) (cell : Cell) (driverId : String) : Option Placement :=
  (ix.drivers.get? driverId).filter (ix.belongs cell)

/-- The drivers listed in the given cells in scan order, with their placements. -/
def listed (ix : Index) (cells : List Cell) : List (String × Option Placement) :=
  cells.flatMap fun cell => (ix.driversIn cell).map fun id => (id, ix.placement? cell id)

/-- The listed drivers that do not belong where they are listed. -/
def misplaced (listed : List (String × Option Placement)) : List String :=
  (listed.filter fun e => e.2.isNone).map Prod.fst

/-- The listed drivers with their distance from a coordinate, in scan order. -/
def candidates (t : Trigonometry) (latitude longitude : Float)
    (listed : List (String × Option Placement)) : List Candidate :=
  listed.filterMap fun e =>
    e.2.map fun p =>
      ⟨e.1, t.haversineKm latitude longitude p.position.latitude p.position.longitude⟩

/-- Whether `a` is ranked no later than `b`. -/
def Candidate.noFarther (a b : Candidate) : Bool :=
  Binary64.rank a.distance ≤ Binary64.rank b.distance

/-- The nearest candidates, nearest first. Equally distant ones keep their order. -/
def ranked (found : List Candidate) (limit : Nat) : List String :=
  ((found.mergeSort Candidate.noFarther).take limit).map Candidate.driverId

/-- **The drivers nearest to a coordinate,** nearest first and at most `limit` of them. -/
def nearest (ix : Index) (latitude longitude : Float) (limit : Nat) :
    Except FleetError (List String) := do
  Geo.validate latitude longitude
  if limit = 0 then return []
  let listed := ix.listed (ix.scannedCells latitude longitude)
  let wrong := misplaced listed
  if wrong.isEmpty then return ranked (candidates ix.trigonometry latitude longitude listed) limit
  else throw (.internal (.cellMismatch wrong.length))

/-- The index without the given drivers, wherever they are listed. -/
def evict (ix : Index) (ids : List String) : Index :=
  { ix with
    drivers := ids.foldl Table.erase ix.drivers
    members := ix.members.keys.foldl (fun members cell =>
      ids.foldl (fun members id => unlink members cell id) members) ix.members }

/-- The index after a search. A search that meets misplaced drivers evicts them. -/
def afterNearest (ix : Index) (latitude longitude : Float) (limit : Nat) : Index :=
  if Geo.isValid latitude longitude && limit ≠ 0 then
    ix.evict (misplaced (ix.listed (ix.scannedCells latitude longitude)))
  else ix

end Fleet.Index
