import Fleet.Time.Duration

/-!
# What can go wrong

`PeerError` is a failure of a peer: the store behind the tracks or the receiver of fixes.
`FleetError` is a failure of an operation of this library. Both name the cause; their texts are
made in one place each.
-/

namespace Fleet

/-- A failure of a peer. -/
inductive PeerError where
  /-- The receiver refused what was sent. -/
  | transport (detail : String)
  /-- The peer cannot be reached. -/
  | unreachable (target : String)
  /-- The store could not read or write. -/
  | storage (detail : String)
  /-- What was sent cannot be decoded. -/
  | undecodable
deriving DecidableEq, Repr

namespace PeerError

/-- The text of a peer's failure. -/
def message : PeerError → String
  | .transport detail => "Transport error: " ++ detail
  | .unreachable target => "Unreachable: " ++ target
  | .storage detail => "Storage error: " ++ detail
  | .undecodable => "Serialization error"

end PeerError

/-- Why a request is malformed. -/
inductive InputFault where
  | emptyDriverId
  | zeroCount
  /-- A point of one driver was submitted as another's. -/
  | foreignPoint (owner submitter : String)
deriving DecidableEq, Repr

namespace InputFault

/-- The text of a malformed request. -/
def message : InputFault → String
  | .emptyDriverId => "driver id must not be empty"
  | .zeroCount => "count must be positive"
  | .foreignPoint owner submitter => "point for " ++ owner ++ " submitted as " ++ submitter

end InputFault

/-- Why a configuration is refused. -/
inductive ConfigFault where
  | cellSize (degrees : Float)
  | speedLimit (kph : Float)
  | emptyWindow
  | retention (retained window : Nat)
  | queueCapacity
  | zeroDuration (setting : String)
deriving DecidableEq

namespace ConfigFault

/-- The text of a refused configuration. -/
def message : ConfigFault → String
  | .cellSize degrees =>
    "bucket size must be a positive number of degrees, got " ++ Notation.plain degrees
  | .speedLimit kph => "max reasonable speed must be positive, got " ++ Notation.plain kph
  | .emptyWindow => "analysis window must hold at least one point"
  | .retention retained window =>
    "retention (" ++ Notation.ofNat retained ++ ") is smaller than the analysis window ("
      ++ Notation.ofNat window ++ ")"
  | .queueCapacity => "forward queue capacity must be > 0"
  | .zeroDuration setting => setting ++ " must be non-zero"

end ConfigFault

/-- Which of this library's own assumptions does not hold. -/
inductive InternalFault where
  /-- A stored record cannot be read back. -/
  | unreadableRecord
  /-- Cells list that many drivers whose position lies elsewhere. -/
  | cellMismatch (drivers : Nat)
deriving DecidableEq, Repr

namespace InternalFault

/-- The text of a broken assumption. -/
def message : InternalFault → String
  | .unreadableRecord => "serialization failed"
  | .cellMismatch drivers =>
    "bucket membership mismatch for " ++ Notation.ofNat drivers ++ " driver(s)"

end InternalFault

/-- **A failure of an operation.** -/
inductive FleetError where
  | invalidCoordinate (latitude longitude : Float)
  | invalidInput (fault : InputFault)
  | notFound (driverId : String)
  | unavailable (cause : PeerError)
  | timedOut (deadline : Duration)
  | internal (fault : InternalFault)
  | invalidConfig (fault : ConfigFault)
deriving DecidableEq

namespace FleetError

/-- The text of a failure. -/
def message : FleetError → String
  | .invalidCoordinate latitude longitude =>
    "Invalid coordinate: lat=" ++ Notation.plain latitude ++ ", lon=" ++ Notation.plain longitude
  | .invalidInput fault => "Invalid input: " ++ fault.message
  | .notFound driverId => "Driver not found: " ++ driverId
  | .unavailable cause => "Upstream unavailable: " ++ cause.message
  | .timedOut deadline => "Timed out after " ++ deadline.text
  | .internal fault => "Internal error: " ++ fault.message
  | .invalidConfig fault => "Invalid configuration: " ++ fault.message

end FleetError

end Fleet
