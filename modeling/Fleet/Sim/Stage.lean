import Fleet.Service.Sweeper
import Fleet.Sim.World

/-!
# Playing a scenario

What a scenario counts and checks while it is played. The first check that fails is remembered and
the play goes on; an error of the library ends it.
-/

namespace Fleet

/-- What is counted during a play. -/
structure Metrics where
  updatesSent : Nat := 0
  queriesRun : Nat := 0
  driversEvicted : Nat := 0
  fixesForwarded : Nat := 0
  fixesDropped : Nat := 0
  glitchesInjected : Nat := 0
  anomaliesDetected : Nat := 0
  /-- Searches that found somebody else with the cells around than without. -/
  boundaryMisses : Nat := 0
deriving DecidableEq, Repr

/-- The state of a play. -/
structure Stage where
  metrics : Metrics := {}
  /-- What the first failed check said. -/
  failure : Option String := none
  /-- Reports since the forwarder's worker had its last turn. -/
  reports : Nat := 0

/-- A part of a play. -/
abbrev Play (α : Type) : Type := ExceptT FleetError (StateM Stage) α

namespace Play

/-- Counts something. -/
def count (change : Metrics → Metrics) : Play Unit :=
  modify fun s => { s with metrics := change s.metrics }

/-- Remembers the first check that fails. -/
def check (holds : Bool) (message : String) : Play Unit :=
  modify fun s => if holds then s else { s with failure := s.failure.or (some message) }

/-- The answer of the track store. The backend of a simulation is never stalled. -/
def answered {α : Type} : Outcome α → Play α
  | .finished result => result
  | .stalled => throw (.timedOut .longest)

/-- How often the reporter or the forwarder's worker may take hold of something that others share
before it makes way for the other one. -/
def turnLength : Nat := 128

/-- After so many reports in a row the reporter makes way: a report takes hold of the index. -/
def reportsPerTurn : Nat := turnLength

/-- After so many deliveries in a row the worker makes way: a delivery takes hold of the queue and
of its driver's slot. -/
def deliveriesPerTurn : Nat := turnLength / 2

/-- The forwarder's worker takes turns until nothing is queued; whether it got everything done. -/
def settle (w : World) : Play (Bool × World) := do
  modify fun s => { s with reports := 0 }
  return w.settle

/-- Makes way for a turn of the worker if it is due. -/
def makeWay (w : World) : Play World := do
  if reportsPerTurn ≤ (← get).reports then
    modify fun s => { s with reports := 0 }
    return { w with node := w.node.turn deliveriesPerTurn }
  return w

/-- Reports a fix. A report that is refused ends the play. -/
def report (w : World) (fix : Fix) : Play World := do
  let w ← makeWay w
  modify fun s => { s with reports := s.reports + 1 }
  let w ← (w.report fix : Except FleetError World)
  count fun m => { m with updatesSent := m.updatesSent + 1 }
  return w

/-- A report of every active driver; how many were refused. -/
def reportAll (w : World) : Play (Nat × World) := do
  let (fixes, w) := w.fixes
  let mut w := w
  let mut rejected := 0
  for fix in fixes do
    w ← makeWay w
    modify fun s => { s with reports := s.reports + 1 }
    match w.report fix with
    | .ok next =>
      w := next
      count fun m => { m with updatesSent := m.updatesSent + 1 }
    | .error _ => rejected := rejected + 1
  return (rejected, w)

/-- The drivers nearest to a coordinate. -/
def nearest (ix : Index) (latitude longitude : Float) (limit : Nat) : Play (List String) := do
  let ids ← (ix.nearest latitude longitude limit : Except FleetError (List String))
  count fun m => { m with queriesRun := m.queriesRun + 1 }
  return ids

end Play

/-- How a play ended. -/
structure Ending where
  ticks : Nat
  time : Float
  drivers : Nat

/-- The ending of a play in a world. -/
def World.ending (w : World) : Ending where
  ticks := w.ticks
  time := w.time
  drivers := w.node.service.index.size

end Fleet
