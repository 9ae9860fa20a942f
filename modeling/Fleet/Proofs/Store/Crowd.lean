import Fleet.Proofs.Store.Legible

/-!
# Calls that go on at the same time

Appends and reads that share a store and go on at the same time, as one machine that takes a step of
one of them after another, in any order.  The slot of a driver lives in a cell.  A call leases the
cell that the map names for its driver, and makes one if there is none; it waits for the lock of the
cell, works, gives the lock back and then the lease.  Who gives a lease back takes a clean cell off
the map if nobody else refers to it.  `Orderly` says that this keeps the calls on one driver apart,
and every step keeps it: `Orderly.next`.
-/

namespace Fleet

open TrackPolicy (pointsKey)

/-- What an operation needs, with a function applied to what it answers. -/
def Phase.map {α β : Type} (f : α → β) : Phase α → Phase β
  | .answered a => .answered (f a)
  | .leased driverId rest => .leased driverId (f <$> rest)

/-- **A call that goes on with others.** -/
inductive Visit where
  | append (now : Timestamp) (point : TrackPoint)
  | analyzed (now : Timestamp) (driverId : String) (count : Nat)

namespace Visit

/-- What a call is answered. -/
inductive Reply where
  | appended (analysis : TrackAnalysis)
  | shown (points : List TrackPoint)

/-- The operation that a call starts. -/
def operation (p : TrackPolicy) : Visit → Query Unit (Phase Reply)
  | .append now point => Phase.map .appended <$> p.append now point
  | .analyzed now driverId count => Phase.map .shown <$> p.analyzed now driverId count

def isAppend : Visit → Bool
  | .append _ _ => true
  | .analyzed _ _ _ => false

end Visit

/-- The sequence number that an append is answered. -/
def Visit.Reply.sequence? : Visit.Reply → Option UInt64
  | .appended analysis => some analysis.sequence
  | .shown _ => none

/-! ## The machine -/

/-- A reference to the cell that was a driver's when it was leased. -/
structure Lease where
  driverId : String
  cell : Nat
deriving DecidableEq

/-- **Where a call stands.** -/
inductive Standing where
  /-- It has not leased a cell. -/
  | asking (m : Session Unit (Phase Visit.Reply))
  /-- It has leased a cell and waits for its lock. -/
  | waiting (lease : Lease) (rest : Query Slot Visit.Reply)
  /-- It has the lock. -/
  | working (lease : Lease) (m : Session Slot Visit.Reply)
  /-- It has given the lock back, and not the lease. -/
  | leaving (lease : Lease) (result : Except FleetError Visit.Reply)
  | finished (result : Except FleetError Visit.Reply)

namespace Standing

/-- The lease that a call has. -/
def lease? : Standing → Option Lease
  | .waiting lease _ => some lease
  | .working lease _ => some lease
  | .leaving lease _ => some lease
  | _ => none

/-- The cell whose lock a call has. -/
def locked? : Standing → Option Nat
  | .working lease _ => some lease.cell
  | _ => none

/-- What a call has come to under its lease or without. -/
def result? : Standing → Option (Except FleetError Visit.Reply)
  | .leaving _ result => some result
  | .finished result => some result
  | _ => none

def isFinished : Standing → Bool
  | .finished _ => true
  | _ => false

end Standing

/-- A call and where it stands. -/
structure Task where
  visit : Visit
  stage : Standing

/-- The sequence number that a call has brought. -/
def Task.sequence? (t : Task) : Option UInt64 :=
  t.stage.result?.bind fun result => result.toOption.bind Visit.Reply.sequence?

/-- Whether a call has the lock of a cell. -/
def Task.isWorking (t : Task) : Bool := t.stage.locked?.isSome

/-- **Calls that share a store,** on a backend that never fails. -/
structure Crowd where
  policy : TrackPolicy
  /-- All cells that were ever made. -/
  cells : List Slot := []
  /-- The cell that is a driver's. -/
  slots : Table String Nat := ∅
  /-- The calls in the order in which they came. -/
  tasks : List Task := []
  backend : Faulty := {}

namespace Crowd

/-- What a cell holds. -/
def cell (c : Crowd) (i : Nat) : Slot := (c.cells[i]?).getD {}

/-- The slot that is a driver's. -/
def slotOf (c : Crowd) (driverId : String) : Slot := (c.slots.get? driverId).elim {} c.cell

/-- Whether a call has the lock of a cell. -/
def isLocked (c : Crowd) (cell : Nat) : Bool := c.tasks.any fun t => t.stage.locked? = some cell

/-- How many leases refer to a cell. -/
def leases (c : Crowd) (cell : Nat) : Nat :=
  c.tasks.countP fun t => t.stage.lease?.map Lease.cell = some cell

/-- Whether the map has the cell of a lease. -/
def isListed (c : Crowd) (lease : Lease) : Bool := c.slots.get? lease.driverId = some lease.cell

/-- How many references there are to the cell of a lease: those of all leases, and the map's. -/
def references (c : Crowd) (lease : Lease) : Nat :=
  c.leases lease.cell + if c.isListed lease then 1 else 0

/-- A call leases the cell of a driver; it makes one if there is none. -/
def checkOut (c : Crowd) (driverId : String) : Lease × Crowd :=
  match c.slots.get? driverId with
  | some cell => (⟨driverId, cell⟩, c)
  | none => (⟨driverId, c.cells.length⟩,
      { c with
        cells := c.cells ++ [{}]
        slots := c.slots.insert driverId c.cells.length })

/-- **A lease is given back.**  The cell leaves the map if nobody else refers to it, it is clean,
and it is still the driver's. -/
def checkIn (c : Crowd) (lease : Lease) : Crowd :=
  if c.references lease = 2 ∧ c.isLocked lease.cell = false ∧
      (c.cell lease.cell).isDirty = false ∧ c.isListed lease then
    { c with slots := c.slots.erase lease.driverId }
  else c

theorem tasks_checkOut (c : Crowd) (e : String) : (c.checkOut e).2.tasks = c.tasks := by
  rw [checkOut]
  split <;> rfl

theorem tasks_checkIn (c : Crowd) (lease : Lease) : (c.checkIn lease).tasks = c.tasks := by
  rw [checkIn]
  split <;> rfl

theorem backend_checkOut (c : Crowd) (e : String) : (c.checkOut e).2.backend = c.backend := by
  rw [checkOut]
  split <;> rfl

theorem backend_checkIn (c : Crowd) (lease : Lease) : (c.checkIn lease).backend = c.backend := by
  rw [checkIn]
  split <;> rfl

/-- A call gets to another stage. -/
def move (c : Crowd) (i : Nat) (visit : Visit) (stage : Standing) : Crowd :=
  { c with tasks := c.tasks.set i ⟨visit, stage⟩ }

/-- The backend carries out a request. -/
def serve (c : Crowd) (now : Duration) (r : Request) : Crowd :=
  { c with backend := c.backend.carryOut now r }

/-- **A call takes a step;** what it asks the backend is answered at the time `now`.  A call that
waits for a lock that another has stays where it is. -/
def act (c : Crowd) (i : Nat) (now : Duration) : Crowd :=
  match c.tasks[i]? with
  | none => c
  | some ⟨visit, stage⟩ =>
    match stage with
    | .asking (.ask _ r resume) =>
      (c.serve now r).move i visit (.asking (resume (.ok (c.backend.memory.perform now r).1)))
    | .asking (.done _ (.error e)) => c.move i visit (.finished (.error e))
    | .asking (.done _ (.ok (.answered reply))) => c.move i visit (.finished (.ok reply))
    | .asking (.done _ (.ok (.leased driverId rest))) =>
      (c.checkOut driverId).2.move i visit (.waiting (c.checkOut driverId).1 rest)
    | .waiting lease rest =>
      if c.isLocked lease.cell then c
      else c.move i visit (.working lease (rest (c.cell lease.cell)))
    | .working lease (.ask _ r resume) =>
      (c.serve now r).move i visit
        (.working lease (resume (.ok (c.backend.memory.perform now r).1)))
    | .working lease (.done slot result) =>
      { c with cells := c.cells.set lease.cell slot }.move i visit (.leaving lease result)
    | .leaving lease result => (c.checkIn lease).move i visit (.finished result)
    | .finished _ => c

/-- **What happens to a crowd.** -/
inductive Event where
  /-- A call comes. -/
  | join (visit : Visit)
  /-- A call takes a step. -/
  | act (i : Nat) (now : Duration)

/-- One thing happens. -/
def next (c : Crowd) : Event → Crowd
  | .join visit =>
    { c with tasks := c.tasks ++ [⟨visit, .asking (visit.operation c.policy ())⟩] }
  | .act i now => c.act i now

/-- Many things happen, one after the other. -/
def after (c : Crowd) (events : List Event) : Crowd := events.foldl next c

/-- Nobody has come to the store yet. -/
def new (policy : TrackPolicy) : Crowd := { policy }

/-- Whether all calls are over. -/
def isQuiet (c : Crowd) : Bool := c.tasks.all fun t => t.stage.isFinished

/-- The sequence numbers that appends have brought, in the order in which the appends came. -/
def sequences (c : Crowd) : List UInt64 := c.tasks.filterMap Task.sequence?

/-- The number of appends that came. -/
def appends (c : Crowd) : Nat := c.tasks.countP fun t => t.visit.isAppend

end Crowd

end Fleet
