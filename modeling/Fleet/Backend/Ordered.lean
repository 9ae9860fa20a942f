import Fleet.Backend.Request

/-!
# The backend on an ordered map

Lists and values are kept in maps ordered by the bytes of their keys. An entry of a list has the
key of the list, a zero byte and an eight-byte number that rises with every entry, so the entries
of a list stand together, oldest first. A value starts with the eight bytes of its expiry in Unix
milliseconds, zero for a value that stays.
-/

namespace Fleet

/-- The order of byte strings: by the first byte that differs, a string after those it extends. -/
def Bytes.before : Bytes → Bytes → Bool
  | _, [] => false
  | [], _ :: _ => true
  | a :: as, b :: bs => if a = b then Bytes.before as bs else a < b

/-- **A map from byte strings to byte strings, in the order of its keys.** -/
structure OrderedMap where
  entries : List (Bytes × Bytes) := []

namespace OrderedMap

/-- Entries with a key set, at its place in the order. -/
def put (key value : Bytes) : List (Bytes × Bytes) → List (Bytes × Bytes)
  | [] => [(key, value)]
  | e :: rest =>
    if e.1 = key then (key, value) :: rest
    else if key.before e.1 then (key, value) :: e :: rest
    else e :: put key value rest

/-- Sets a key. -/
def insert (m : OrderedMap) (key value : Bytes) : OrderedMap := ⟨put key value m.entries⟩

/-- Removes a key. -/
def erase (m : OrderedMap) (key : Bytes) : OrderedMap := ⟨m.entries.filter fun e => e.1 ≠ key⟩

/-- The value at a key. -/
def get? (m : OrderedMap) (key : Bytes) : Option Bytes :=
  (m.entries.find? fun e => e.1 = key).map Prod.snd

/-- The entries whose key starts with the given bytes, in order. -/
def scan (m : OrderedMap) (start : Bytes) : List (Bytes × Bytes) :=
  m.entries.filter fun e => start.isPrefixOf e.1

end OrderedMap

/-- **The backend on ordered maps.** -/
structure Ordered where
  lists : OrderedMap := {}
  values : OrderedMap := {}
  /-- The number of the next list entry. -/
  nextId : Nat := 0

namespace Ordered

/-- What the keys of a list's entries start with. -/
def listStart (key : String) : Bytes := Bytes.ofText key ++ [0]

/-- The entries of a list, newest first. -/
def newestFirst (o : Ordered) (key : String) : List (Bytes × Bytes) :=
  (o.lists.scan (listStart key)).reverse

/-- The last moment an expiry can name. -/
def lastExpiry : Nat := 2 ^ 64 - 1

/-- The expiry of a value set at the time `now` in Unix milliseconds; zero for none. -/
def expiry (now : Nat) : Option Duration → Nat
  | none => 0
  | some ttl => min (now + ttl.millis) lastExpiry

/-- The length of the expiry in front of a value. -/
def headerLength : Nat := 8

/-- Reads the value at a key. A value that has expired is dropped. -/
def read (now : Nat) (o : Ordered) (key : String) : Except PeerError (Option Bytes) × Ordered :=
  match o.values.get? (Bytes.ofText key) with
  | none => (.ok none, o)
  | some stored =>
    if stored.length < headerLength then
      (.error (.storage ("Corrupt value header for " ++ key)), o)
    else
      let expiresAt := Bytes.toNat (stored.take headerLength)
      if expiresAt ≠ 0 ∧ expiresAt ≤ now then
        (.ok none, { o with values := o.values.erase (Bytes.ofText key) })
      else (.ok (some (stored.drop headerLength)), o)

/-- **Serves a request at the time `now`,** given in Unix milliseconds. -/
def serve (now : Nat) (o : Ordered) : (r : Request) → r.Result × Ordered
  | .pushFront key value =>
    let lists := o.lists.insert (listStart key ++ Bytes.ofNat64 o.nextId) value
    (.ok (lists.scan (listStart key)).length, { o with lists, nextId := o.nextId + 1 })
  | .range key count => (.ok (((o.newestFirst key).take count).map Prod.snd), o)
  | .trim key keep =>
    let gone := ((o.newestFirst key).drop keep).map Prod.fst
    (.ok gone.length, { o with lists := gone.foldl OrderedMap.erase o.lists })
  | .set key value ttl =>
    (.ok (), { o with
      values := o.values.insert (Bytes.ofText key) (Bytes.ofNat64 (expiry now ttl) ++ value) })
  | .get key => o.read now key

end Ordered

end Fleet
