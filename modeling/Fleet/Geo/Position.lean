import Fleet.Error
import Fleet.Time.Clock

/-!
# Positions on the globe

Coordinates in degrees, the great-circle distance between them, straight lines in degrees, and
positions stamped with the time at which they were observed.  The functions of angles come from a
library of numbers, and distances are defined for any such functions.
-/

namespace Fleet

namespace Geo

/-- Mean radius of the earth in kilometres. -/
def earthRadiusKm : Float := 6371

/-- Whether a pair of numbers is a coordinate: finite, latitude within 90 degrees of the equator
and longitude within 180 of the prime meridian. -/
def isValid (latitude longitude : Float) : Bool :=
  latitude.isFinite && longitude.isFinite
    && -90 ≤ latitude && latitude ≤ 90
    && -180 ≤ longitude && longitude ≤ 180

/-- Refuses a pair of numbers that is no coordinate. -/
def validate (latitude longitude : Float) : Except FleetError Unit :=
  if isValid latitude longitude then .ok () else .error (.invalidCoordinate latitude longitude)

/-- The constant π. -/
def pi : Float := 3.141592653589793

/-- Degrees to radians. -/
def radians (degrees : Float) : Float := degrees * (pi / 180)

/-- `x` held between `low` and `high`. NaN stays NaN. -/
def clamp (low high x : Float) : Float :=
  if x < low then low else if high < x then high else x

end Geo

/-- **Functions of angles in radians,** as a library of numbers has them. -/
structure Trigonometry where
  sin (angle : Float) : Float
  cos (angle : Float) : Float
  /-- The angle at which the point `x` to the right and `y` up is seen. -/
  atan2 (y x : Float) : Float

namespace Trigonometry

/-- The functions of the machine. -/
def machine : Trigonometry := ⟨Float.sin, Float.cos, Float.atan2⟩

/-- The square of half the chord between two coordinates, on a globe of radius one. Rounding can
push it past one for opposite points, so it is held between zero and one. -/
def halfChordSquared (t : Trigonometry) (lat₁ lon₁ lat₂ lon₂ : Float) : Float :=
  let sinLat := t.sin (Geo.radians (lat₂ - lat₁) / 2)
  let sinLon := t.sin (Geo.radians (lon₂ - lon₁) / 2)
  Geo.clamp 0 1 (sinLat * sinLat
    + t.cos (Geo.radians lat₁) * t.cos (Geo.radians lat₂) * (sinLon * sinLon))

/-- **Great-circle distance in kilometres** by the haversine formula. -/
def haversineKm (t : Trigonometry) (lat₁ lon₁ lat₂ lon₂ : Float) : Float :=
  let a := t.halfChordSquared lat₁ lon₁ lat₂ lon₂
  Geo.earthRadiusKm * (2 * t.atan2 a.sqrt (1 - a).sqrt)

end Trigonometry

/-- Great-circle distance in kilometres, with the functions of the machine. -/
def Geo.haversineKm (lat₁ lon₁ lat₂ lon₂ : Float) : Float :=
  Trigonometry.machine.haversineKm lat₁ lon₁ lat₂ lon₂

/-- **Where something was, and when.** -/
structure Position where
  latitude : Float
  longitude : Float
  /-- Time of the observation. -/
  observedAt : Timestamp
deriving DecidableEq

namespace Position

/-- The position at a coordinate, which must be valid. -/
def make (latitude longitude : Float) (observedAt : Timestamp) : Except FleetError Position := do
  Geo.validate latitude longitude
  return ⟨latitude, longitude, observedAt⟩

/-- Whether the coordinate is valid. -/
def isValid (p : Position) : Bool := Geo.isValid p.latitude p.longitude

/-- Age in milliseconds at the time `now`; negative for a position from the future. -/
def age (p : Position) (now : Timestamp) : Int64 := Timestamp.since now p.observedAt

/-- Whether the position is older than `limit`, in whole milliseconds. A limit beyond the range of
ages is never exceeded. -/
def isStale (p : Position) (now : Timestamp) (limit : Duration) : Bool :=
  Int64.ofIntClamp limit.millis < p.age now

/-- The coordinate a given part of the way from `p` to `q`, on the straight line in degrees. -/
def along (p q : Position) (part : Float) : Float × Float :=
  (p.latitude + (q.latitude - p.latitude) * part,
    p.longitude + (q.longitude - p.longitude) * part)

end Position

/-- Distance between two positions in kilometres. -/
def Trigonometry.distanceKm (t : Trigonometry) (p q : Position) : Float :=
  t.haversineKm p.latitude p.longitude q.latitude q.longitude

/-- Distance between two positions in kilometres, with the functions of the machine. -/
def Position.distanceKm (p q : Position) : Float := Trigonometry.machine.distanceKm p q

end Fleet
