import Fleet.Backend.Command
import Fleet.Store.TrackStore

/-!
# A track store and its backend

The two together as one state, and the operations on them as data, so that a history of a store is
a list of commands.
-/

namespace Fleet

/-- **A track store with its backend.** -/
structure Depot where
  store : TrackStore
  backend : Backend

namespace Depot

/-- A store that has not been used, on a backend in memory. -/
def inMemory (policy : TrackPolicy) : Depot := { store := .new policy, backend := {} }

/-- What can be done to a store and its backend. -/
inductive Command where
  | append (point : TrackPoint)
  | ingest (driverId : String) (point : TrackPoint) (deadline : Option Duration)
  | recent (driverId : String) (count : Nat)
  | analyzed (driverId : String) (count : Nat) (deadline : Option Duration)
  | latest (driverId : String)
  | save (analysis : TrackAnalysis)
  | deliver (envelope : Envelope)
  /-- Replace the store by a new one on the same backend. -/
  | restart (policy : TrackPolicy)
  | backend (command : Backend.Command)

/-- What a command answers. -/
inductive Answer where
  | appended (result : Except FleetError TrackAnalysis)
  | points (result : Except FleetError (List TrackPoint))
  | latest (result : Except FleetError (Option TrackAnalysis))
  | saved (result : Except FleetError Bool)
  | delivered (envelope : Envelope) (delivery : Delivery)
  | restarted
  | backend (answer : Backend.Answer)
  /-- The backend is stalled and nothing limits the wait. -/
  | unanswered

/-- The answer of an operation that may have a deadline. -/
def answerBy {α : Type} (answer : Except FleetError α → Answer) (deadline : Option Duration)
    (outcome : Outcome α) : Answer :=
  match deadline, outcome with
  | some deadline, outcome => answer (outcome.within deadline)
  | none, .finished result => answer result
  | none, .stalled => .unanswered

/-- Runs an operation of the store. -/
def perform {α : Type} (clock : Clock) (d : Depot) (operation : Query Unit (Phase α)) :
    Outcome α × Depot :=
  let (outcome, store, backend) := d.store.run (Backend.serve clock) d.backend operation
  (outcome, { store, backend })

/-- The points of a driver with their analysis. -/
def analyzed (clock : Clock) (d : Depot) (driverId : String) (count : Nat) :
    Outcome (List TrackPoint) × Depot :=
  d.perform clock (d.store.policy.analyzed clock.timestamp driverId count)

/-- Takes in a point on behalf of a driver. -/
def ingest (clock : Clock) (d : Depot) (driverId : String) (point : TrackPoint) :
    Outcome TrackAnalysis × Depot :=
  d.perform clock (d.store.policy.ingest clock.timestamp driverId point)

/-- Takes in an envelope. -/
def deliver (clock : Clock) : Sink Depot := fun d envelope =>
  let (delivery, store, backend) :=
    TrackStore.deliver (Backend.serve clock) clock.timestamp (d.store, d.backend) envelope
  (delivery, { store, backend })

/-- **One command at the time that the clock shows:** its answer and the depot after it. -/
def run (clock : Clock) (d : Depot) : Command → Answer × Depot
  | .append point =>
    let (outcome, after) := d.perform clock (d.store.policy.append clock.timestamp point)
    (answerBy .appended none outcome, after)
  | .ingest driverId point deadline =>
    let (outcome, after) := d.ingest clock driverId point
    (answerBy .appended deadline outcome, after)
  | .recent driverId count =>
    let (outcome, after) := d.perform clock (TrackPolicy.recent driverId count)
    (answerBy .points none outcome, after)
  | .analyzed driverId count deadline =>
    let (outcome, after) := d.analyzed clock driverId count
    (answerBy .points deadline outcome, after)
  | .latest driverId =>
    let (outcome, after) := d.perform clock (TrackPolicy.latest driverId)
    (answerBy .latest none outcome, after)
  | .save analysis =>
    let (outcome, after) := d.perform clock (d.store.policy.save analysis)
    (answerBy .saved none outcome, after)
  | .deliver envelope =>
    let (delivery, after) := Depot.deliver clock d envelope
    (.delivered envelope delivery, after)
  | .restart policy => (.restarted, { d with store := .new policy })
  | .backend command =>
    let (answer, backend) := d.backend.run clock command
    (.backend answer, { d with backend })

end Depot

end Fleet
