import Fleet.Forward.Sink
import Fleet.Store.Operation
import Fleet.Table

/-!
# The track store

The store keeps the slots of drivers between operations, and only the dirty ones: what a clean
slot knows is in the backend too. An operation leases a slot, and releases it however it ends.
While one that waits for the backend has not been given up, other operations on its driver wait as
well.
-/

namespace Fleet

/-- **The store of tracks,** without its backend. -/
structure TrackStore where
  policy : TrackPolicy
  slots : Table String Slot := ∅
  /-- The driver whose slot is out on lease to an operation that goes on. -/
  held : Option String := none

namespace TrackStore

/-- A store that has not been used. -/
def new (policy : TrackPolicy) : TrackStore := { policy }

/-- The slot that an operation on a driver starts with. -/
def slotOf (st : TrackStore) (driverId : String) : Slot := (st.slots.get? driverId).getD {}

/-- The store after a slot is given back. A clean one is dropped. -/
def release (st : TrackStore) (driverId : String) (slot : Slot) : TrackStore :=
  { st with
    slots := if slot.isDirty then st.slots.insert driverId slot else st.slots.erase driverId }

/-- An operation on a driver goes on until it is given up. What its slot will be then is known,
for nobody else can lease it. -/
def hold (st : TrackStore) (driverId : String) : TrackStore := { st with held := some driverId }

/-- The operation that went on is given up. -/
def giveUp (st : TrackStore) : TrackStore := { st with held := none }

/-- **Runs an operation against a backend.** One that cannot lease the slot it needs waits for
good. -/
def run {α β : Type} (serve : Server β) (st : TrackStore) (backend : β)
    (operation : Query Unit (Phase α)) : Outcome α × TrackStore × β :=
  match (operation ()).run serve backend with
  | (.stalled, _, backend) => (.stalled, st, backend)
  | (.finished (.error e), _, backend) => (.finished (.error e), st, backend)
  | (.finished (.ok (.answered a)), _, backend) => (.finished (.ok a), st, backend)
  | (.finished (.ok (.leased driverId rest)), _, backend) =>
    if st.held = some driverId then (.stalled, st, backend)
    else
      let (outcome, slot, backend) := (rest (st.slotOf driverId)).run serve backend
      (outcome, st.release driverId slot, backend)

/-- Operations neither take a slot for good nor give one up. -/
theorem held_run {α β : Type} (serve : Server β) (st : TrackStore) (backend : β)
    (operation : Query Unit (Phase α)) : (st.run serve backend operation).2.1.held = st.held := by
  rw [run]
  split
  · rfl
  · rfl
  · rfl
  · split <;> rfl

/-- What the sender of an envelope learns from how its point was taken in. -/
def verdict {α : Type} : Outcome α → Delivery
  | .finished (.ok _) => .accepted
  | .finished (.error (.unavailable cause)) => .refused cause
  | .finished (.error e) => .refused (.transport ("fix rejected: " ++ e.message))
  | .stalled => .unanswered

/-- **Takes in an envelope:** its payload is a point of the driver it names. -/
def deliver {β : Type} (serve : Server β) (now : Timestamp) :
    Sink (TrackStore × β) := fun (st, backend) envelope =>
  match (Wire.read? envelope.payload : Option TrackPoint) with
  | none => (.refused .undecodable, st, backend)
  | some point =>
    let (outcome, after) := st.run serve backend (st.policy.ingest now envelope.driverId point)
    (verdict outcome, after)

end TrackStore

end Fleet
