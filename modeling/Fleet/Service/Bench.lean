import Fleet.Node.Basic
import Fleet.Service.Sweeper

/-!
# A service on the bench

A node whose sink can be made to fail, whose background tasks run only when they are told to, and
whose clock is moved by hand. Deliveries are timed by a timer of their own.
-/

namespace Fleet

/-- What the sink does with the deliveries that begin. -/
inductive SinkMode where
  | accept
  | refuse
  /-- A delivery never ends. -/
  | stall
  /-- A delivery brings the worker down. -/
  | crash
deriving DecidableEq, Repr

/-- The sink on the bench. -/
structure BenchSink where
  mode : SinkMode := .accept
  /-- Envelopes that arrived, newest first. -/
  arrived : List Envelope := []
  /-- Where envelopes go that arrived. -/
  depot : Depot
  /-- Whether they go there. -/
  feedsDepot : Bool

/-- What the sink does with an envelope at the time that a clock shows. A delivery that waits for
the backend keeps its driver's slot. -/
def BenchSink.deliver (clock : Clock) : Sink BenchSink := fun s e =>
  match s.mode with
  | .refuse => (.refused (.unreachable "sink"), s)
  | .stall => (.unanswered, s)
  | .crash => (.fatal, s)
  | .accept =>
    let s := { s with arrived := e :: s.arrived }
    if s.feedsDepot then
      let (delivery, depot) := Depot.deliver clock s.depot e
      let store := if delivery = .unanswered then depot.store.hold e.driverId else depot.store
      (delivery, { s with depot := { depot with store } })
    else (.accepted, s)

/-- **A service on the bench.** -/
structure Bench where
  clock : Clock := .start
  /-- Nanoseconds on the timer of deliveries. -/
  timer : Nat := 0
  /-- When the delivery that goes on is given up, on the timer. -/
  givesUpAt : Option Nat := none
  service : DriverService
  sink : BenchSink
  sweeper : Option Sweeper := none

namespace Bench

/-- A bench with nothing on it, unless the configuration is refused. -/
def new (config : Config) (feedsDepot : Bool) : Except FleetError Bench := do
  return {
    service := ← DriverService.new config
    sink := { depot := .inMemory config.trackPolicy, feedsDepot } }

/-- The first whole millisecond at or after a moment. -/
def nextTick (nanos : Nat) : Nat := (nanos + nanosPerMilli - 1) / nanosPerMilli

/-- Gives up a delivery whose time is over. The timer ticks in whole milliseconds. -/
def giveUp (b : Bench) : Bench :=
  match b.givesUpAt with
  | some at_ =>
    if nextTick at_ ≤ b.timer / nanosPerMilli then
      { b with
        givesUpAt := none
        service := { b.service with forwarder := b.service.forwarder.settle false }
        sink.depot.store := b.sink.depot.store.giveUp }
    else b
  | none => b

/-- The worker runs as far as it can. A delivery that does not end is timed from here. -/
def runWorker (b : Bench) : Bench :=
  let (service, sink) := b.service.work (BenchSink.deliver b.clock) b.sink
  let limit := service.forwarder.config.sendTimeout
  { b with
    service, sink
    givesUpAt :=
      if service.forwarder.inDelivery.isSome then b.givesUpAt.or (some (b.timer + limit.nanos))
      else none }

/-- The sweeper is given a chance to run. -/
def runSweeper (b : Bench) : Bench :=
  match b.sweeper with
  | none => b
  | some w =>
    let (w, service) := w.poll b.clock b.service
    { b with service, sweeper := some w }

/-- **The background tasks run as far as they can.** -/
def settle (b : Bench) : Bench := b.runWorker.runSweeper

/-- Both clocks move. At most one delivery is given up, for the next one starts only then. -/
def advance (b : Bench) (step : Duration) : Bench :=
  { b with clock := b.clock.advance step, timer := b.timer + step.nanos }.giveUp.settle

/-- A drain in progress: as long as it has to wait, the tasks run and the clock moves on. -/
def drainRounds (deadline : Duration) : Nat → Bench → Nat × Bench
  | 0, b => (b.service.forwarder.pending, b)
  | n + 1, b =>
    match b.service.forwarder.drained? b.clock deadline with
    | some left => (left, b)
    | none =>
      let b := b.settle
      drainRounds deadline n { b with clock := b.clock.advance Forwarder.drainPoll }

/-- The number of looks a drain takes at most. -/
def drainLooks (b : Bench) (deadline : Duration) : Nat :=
  (deadline.nanos - b.clock.elapsed) / Forwarder.drainPoll.nanos + 2

/-- **Waits until the queue is empty or the time is over,** and tells how many envelopes are left;
none if the clock cannot name the deadline. -/
def drain (b : Bench) (timeout : Duration) : Option (Nat × Bench) :=
  (Forwarder.drainDeadline? b.clock timeout).map fun deadline =>
    let (left, b) := drainRounds deadline (b.drainLooks deadline) b
    (left, b.settle)

/-- What can be done on the bench. -/
inductive Command where
  | update (driverId : String) (latitude longitude : Float)
  /-- Positions of many drivers, numbered from zero. -/
  | burst (start : String) (count : Nat) (latitude longitude : Float)
  | nearby (latitude longitude : Float) (limit : Nat)
  | position (driverId : String)
  | remove (driverId : String)
  | list
  | stats
  | requestTimeout
  | settle
  | advance (step : Duration)
  | setSink (mode : SinkMode)
  | received
  | drain (timeout : Duration)
  | sweep
  | startSweeper
  | stopSweeper
  | dropSweeper
  | sweeper
  | depot (command : Depot.Command)

/-- What a command answers. -/
inductive Answer where
  | done (result : Except FleetError Unit)
  | count (n : Nat)
  | found (result : Except FleetError (List String))
  | position (result : Except FleetError Position)
  | removed (wasPresent : Bool)
  | records (records : List DriverRecord)
  | stats (stats : ServiceStats)
  | duration (d : Duration)
  | time (now : Timestamp)
  | received (envelopes : List Envelope)
  | drained (left : Nat) (now : Timestamp)
  | noDeadline
  | sweeper (sweeper : Option Sweeper)
  | depot (answer : Depot.Answer)

/-- Takes the position of a driver. -/
def update (b : Bench) (driverId : String) (latitude longitude : Float) :
    Except FleetError Bench := do
  return { b with service := ← b.service.update b.clock.timestamp driverId latitude longitude }

/-- Takes the positions of drivers numbered from zero, and counts those that were accepted. -/
def burst (start : String) (latitude longitude : Float) (count : Nat) (b : Bench) : Nat × Bench :=
  (List.range count).foldl (fun (accepted, b) i =>
    match b.update (start ++ Notation.ofNat i) latitude longitude with
    | .ok b => (accepted + 1, b)
    | .error _ => (accepted, b)) (0, b)

/-- **One command:** its answer and the bench after it. -/
def run (b : Bench) : Command → Answer × Bench
  | .update driverId latitude longitude =>
    match b.update driverId latitude longitude with
    | .ok b => (.done (.ok ()), b)
    | .error e => (.done (.error e), b)
  | .burst start count latitude longitude =>
    let (accepted, b) := b.burst start latitude longitude count
    (.count accepted, b)
  | .nearby latitude longitude limit =>
    let (found, service) := b.service.nearby latitude longitude limit
    (.found found, { b with service })
  | .position driverId => (.position (b.service.position driverId), b)
  | .remove driverId =>
    let (wasPresent, service) := b.service.remove driverId
    (.removed wasPresent, { b with service })
  | .list => (.records (b.service.drivers b.clock.timestamp), b)
  | .stats => (.stats b.service.stats, b)
  | .requestTimeout => (.duration b.service.requestTimeout, b)
  | .settle => (.done (.ok ()), b.settle)
  | .advance step => let b := b.advance step; (.time b.clock.timestamp, b)
  | .setSink mode => (.done (.ok ()), { b with sink.mode := mode })
  | .received => (.received b.sink.arrived.reverse, b)
  | .drain timeout =>
    match b.drain timeout with
    | some (left, b) => (.drained left b.clock.timestamp, b)
    | none => (.noDeadline, b)
  | .sweep =>
    let (count, service) := b.service.sweep b.clock.timestamp
    (.count count, { b with service })
  | .startSweeper =>
    let interval := b.service.index.config.cleanupInterval
    (.done (.ok ()), { b with sweeper := some (.start b.clock interval) }.settle)
  | .stopSweeper => (.done (.ok ()), { b with sweeper := b.sweeper.map Sweeper.stop }.settle)
  | .dropSweeper => (.done (.ok ()), { b with sweeper := none }.settle)
  | .sweeper => (.sweeper b.sweeper, b)
  | .depot command =>
    let (answer, depot) := b.sink.depot.run b.clock command
    (.depot answer, { b with sink.depot := depot })

end Bench

end Fleet
