import Fleet.Backend.Request
import Fleet.Table

/-!
# The backend in memory

Lists and values in tables. Times to live are measured on the clock of the caller; a value expires
at the very nanosecond at which its time is over, and is dropped when it is next read. An outage
refuses every request.
-/

namespace Fleet

/-- A value and the moment at which it expires, if it does. -/
structure Expiring where
  value : Bytes
  expiresAt : Option Duration
deriving DecidableEq

/-- **The backend in memory.** -/
structure Memory where
  lists : Table String (List Bytes) := ∅
  values : Table String Expiring := ∅
  available : Bool := true

namespace Memory

/-- The values of a list, newest first. -/
def list (m : Memory) (key : String) : List Bytes := (m.lists.get? key).getD []

/-- Whether a value has expired at the time `now`. -/
def isExpired (now : Duration) (e : Expiring) : Bool :=
  match e.expiresAt with
  | none => false
  | some at_ => at_.nanos ≤ now.nanos

/-- Carries out a request at the time `now`. -/
def perform (now : Duration) (m : Memory) : (r : Request) → r.Reply × Memory
  | .pushFront key value =>
    let values := value :: m.list key
    (values.length, { m with lists := m.lists.insert key values })
  | .range key count => ((m.list key).take count, m)
  | .trim key keep =>
    match m.lists.get? key with
    | none => ((0 : Nat), m)
    | some values =>
      (values.length - keep, { m with lists := m.lists.insert key (values.take keep) })
  | .set key value ttl =>
    ((), { m with values := m.values.insert key ⟨value, ttl.bind now.add?⟩ })
  | .get key =>
    match m.values.get? key with
    | none => ((none : Option Bytes), m)
    | some e =>
      if isExpired now e then (none, { m with values := m.values.erase key })
      else (some e.value, m)

/-- **Serves a request at the time `now`.** During an outage nothing changes and nothing is
read. -/
def serve (now : Duration) (m : Memory) (r : Request) : r.Result × Memory :=
  if m.available then
    let (reply, after) := m.perform now r
    (.ok reply, after)
  else (.error (.unreachable "memory backend"), m)

end Memory

end Fleet
