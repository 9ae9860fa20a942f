import Fleet.Geo.Position
import Fleet.Random.Normal

/-!
# The ground truth of a simulation

Where the simulated drivers really are, how they move, and the fixes that their devices report:
the true position with normally distributed noise, or thrown far off on purpose.
-/

namespace Fleet

/-- **A simulated driver.** -/
structure SimDriver where
  id : String
  latitude : Float
  longitude : Float
  /-- Degrees clockwise from north. -/
  heading : Float
  /-- Kilometres per hour. -/
  speed : Float
  /-- A driver that is offline neither moves nor reports. -/
  isActive : Bool := true
deriving DecidableEq

/-- **A fix** as a device reports it. -/
structure Fix where
  driverId : String
  latitude : Float
  longitude : Float
  /-- Whether the fix was thrown off on purpose. -/
  isGlitch : Bool := false
deriving DecidableEq

namespace SimDriver

/-- Kilometres in a degree of latitude. -/
def kmPerDegree : Float := 111.195

/-- The larger of two floats; the first one if the second is not a number. -/
def atLeast (low x : Float) : Float := if low < x then x else low

/-- The part of a degree of longitude at the equator that a degree spans at a latitude; never
zero. -/
def parallel (latitude : Float) : Float := atLeast 1e-6 (Float.cos (Geo.radians latitude))

/-- A longitude brought back by one turn if it has passed the date line. -/
def wrapped (longitude : Float) : Float :=
  if 180 < longitude then longitude - 360
  else if longitude < -180 then longitude + 360
  else longitude

/-- The driver after `seconds` of its way. -/
def moved (seconds : Float) (d : SimDriver) : SimDriver :=
  let distance := d.speed * seconds / 3600
  let heading := Geo.radians d.heading
  let north := distance * Float.cos heading / kmPerDegree
  let east := distance * Float.sin heading / (kmPerDegree * parallel d.latitude)
  { d with
    latitude := Geo.clamp (-89.9) 89.9 (d.latitude + north)
    longitude := wrapped (d.longitude + east) }

/-- The fix of a driver that is off by some degrees. -/
def fix (d : SimDriver) (north east : Float) : Fix where
  driverId := d.id
  latitude := Geo.clamp (-90) 90 (d.latitude + north)
  longitude := Geo.clamp (-180) 180 (d.longitude + east)

/-- The fix of a driver thrown off to the north. -/
def glitch (d : SimDriver) (km : Float) : Fix where
  driverId := d.id
  latitude := Geo.clamp (-90) 90 (d.latitude + km / kmPerDegree)
  longitude := d.longitude
  isGlitch := true

end SimDriver

/-- **The ground truth:** every driver in the order of their arrival, and the noise of the fixes
in metres. -/
structure Oracle where
  random : Random
  drivers : List SimDriver := []
  noise : Float := 5

namespace Oracle

/-- The ground truth without drivers. -/
def new (seed : UInt64) : Oracle := { random := .seeded seed }

/-- Sets the noise, which is never negative. -/
def setNoise (o : Oracle) (metres : Float) : Oracle :=
  { o with noise := SimDriver.atLeast 0 metres }

/-- Draws from the generator of the ground truth. -/
def draw {α : Type} (o : Oracle) (d : Draw α) : α × Oracle :=
  let (a, random) := d.run o.random
  (a, { o with random })

/-- The hexadecimal digits of a byte. -/
def hexByte (b : UInt8) : String :=
  .ofList [Nat.digitChar (b.toNat / 16), Nat.digitChar (b.toNat % 16)]

/-- Sixteen random bytes as the text of a random identifier: version four, variant one. -/
def identifier (bytes : List UInt8) : String :=
  let tagged := bytes.mapIdx fun i b =>
    if i = 6 then (b &&& 0x0f) ||| 0x40 else if i = 8 then (b &&& 0x3f) ||| 0x80 else b
  let part (start count : Nat) := String.join (((tagged.drop start).take count).map hexByte)
  "-".intercalate [part 0 4, part 4 2, part 6 2, part 8 2, part 10 6]

/-- A new driver's id. -/
def newId : Draw String := do
  let bytes ← (List.replicate 16 ()).mapM fun _ => return (← Draw.word).toUInt8
  return "driver-" ++ identifier bytes

/-- **A driver arrives.** -/
def spawn (o : Oracle) (latitude longitude heading speed : Float) : String × Oracle :=
  let (id, o) := o.draw newId
  (id, { o with drivers := o.drivers ++ [{ id, latitude, longitude, heading, speed }] })

/-- A driver at a random place around a centre, with a random heading and the speed of city
traffic. -/
def randomDriver (latitude longitude spread : Float) : Draw SimDriver := do
  let north ← Draw.rangeInclusive (-spread) spread
  let east ← Draw.rangeInclusive (-spread) spread
  let heading ← Draw.range 0 360
  let speed ← Draw.normal 40 10
  return {
    id := ← newId
    latitude := latitude + north
    longitude := longitude + east
    heading
    speed := Geo.clamp 5 100 speed }

/-- **Drivers arrive at random places around a centre.** -/
def spawnFleet (o : Oracle) (count : Nat) (latitude longitude spread : Float) :
    List String × Oracle :=
  let (fleet, o) := o.draw ((List.replicate count ()).mapM fun _ =>
    randomDriver latitude longitude spread)
  (fleet.map SimDriver.id, { o with drivers := o.drivers ++ fleet })

/-- The driver with an id. -/
def driver? (o : Oracle) (id : String) : Option SimDriver := o.drivers.find? fun d => d.id = id

/-- The drivers that are not offline. -/
def active (o : Oracle) : List SimDriver := o.drivers.filter SimDriver.isActive

/-- Changes the first element that satisfies `p`. -/
def updateFirst {α : Type} (p : α → Bool) (f : α → α) : List α → List α
  | [] => []
  | a :: rest => if p a then f a :: rest else a :: updateFirst p f rest

/-- Takes a driver offline. -/
def goOffline (o : Oracle) (id : String) : Oracle :=
  { o with
    drivers := updateFirst (fun d => d.id = id) (fun d => { d with isActive := false }) o.drivers }

/-- **Time passes:** every active driver moves. -/
def step (o : Oracle) (seconds : Float) : Oracle :=
  { o with drivers := o.drivers.map fun d => if d.isActive then d.moved seconds else d }

/-- The noise of a fix in degrees to the north and to the east. Nothing is drawn if there is
none. -/
def drawNoise (metres latitude : Float) : Draw (Float × Float) := do
  if metres == 0 || !metres.isFinite then return (0, 0)
  let north ← Draw.normal 0 metres
  let east ← Draw.normal 0 metres
  let metresPerDegree := SimDriver.kmPerDegree * 1000
  return (north / metresPerDegree, east / (metresPerDegree * SimDriver.parallel latitude))

/-- The fix that a driver's device reports. -/
def drawFix (metres : Float) (d : SimDriver) : Draw Fix := do
  let (north, east) ← drawNoise metres d.latitude
  return d.fix north east

/-- **The fix of a driver;** none if it is offline or unknown. -/
def fix? (o : Oracle) (id : String) : Option Fix × Oracle :=
  match (o.driver? id).filter SimDriver.isActive with
  | none => (none, o)
  | some d => let (fix, o) := o.draw (drawFix o.noise d); (some fix, o)

/-- **A fix of every active driver,** in the order of their arrival. -/
def fixes (o : Oracle) : List Fix × Oracle :=
  o.active.foldl (fun (found, o) d =>
    let (fix, o) := o.fix? d.id
    (found ++ fix.toList, o)) ([], o)

/-- **A fix of a driver thrown off to the north.** -/
def glitch? (o : Oracle) (id : String) (km : Float) : Option Fix :=
  (o.driver? id).map fun d => d.glitch km

end Oracle

end Fleet
