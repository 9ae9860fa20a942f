import Fleet.Bytes
import Fleet.Error
import Fleet.Time.Clock

/-!
# Requests to a backend

A backend keeps lists of byte strings, newest first, and single values that may expire. A request
and the kind of reply it asks for are data, so that an operation can be stopped at any request and
a backend can be replaced by another.
-/

namespace Fleet

/-- **What can be asked of a backend.** -/
inductive Request where
  /-- Put a value in front of a list; the reply is the list's new length. -/
  | pushFront (key : String) (value : Bytes)
  /-- The newest values of a list, newest first; a list that does not exist is empty. -/
  | range (key : String) (count : Nat)
  /-- Drop all but the newest values of a list; the reply is the number dropped. -/
  | trim (key : String) (keep : Nat)
  /-- Set a value, for a time or for good. -/
  | set (key : String) (value : Bytes) (ttl : Option Duration)
  /-- The value at a key, if there is one and it has not expired. -/
  | get (key : String)
deriving DecidableEq

/-- The kinds of request. -/
inductive Method where
  | pushFront
  | range
  | trim
  | set
  | get
deriving DecidableEq, Repr

namespace Method

/-- The name by which a kind of request is known. -/
def name : Method → String
  | .pushFront => "push_front"
  | .range => "range"
  | .trim => "trim"
  | .set => "set"
  | .get => "get"

/-- The kind of request with a given name. -/
def ofName? (name : String) : Option Method :=
  [pushFront, range, trim, set, get].find? fun m => m.name = name

end Method

namespace Request

/-- The type of the reply to a request. -/
def Reply : Request → Type
  | .pushFront _ _ => Nat
  | .range _ _ => List Bytes
  | .trim _ _ => Nat
  | .set _ _ _ => Unit
  | .get _ => Option Bytes

/-- The kind of a request. -/
def method : Request → Method
  | .pushFront _ _ => .pushFront
  | .range _ _ => .range
  | .trim _ _ => .trim
  | .set _ _ _ => .set
  | .get _ => .get

/-- What a request that is carried out comes to: the reply or the backend's failure. -/
abbrev Result (r : Request) : Type := Except PeerError r.Reply

end Request

/-- **How a backend with states `σ` serves requests.** Without a result the request is never
answered. -/
abbrev Server (σ : Type) : Type := σ → (r : Request) → Option r.Result × σ

end Fleet
