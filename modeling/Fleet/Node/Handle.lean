import Fleet.Node.Basic
import Fleet.Node.Command
import Fleet.Node.Reply

/-!
# A node at work

What a node does with a command and with a line. Operations on tracks end at the request timeout;
nothing else can take that long.
-/

namespace Fleet.Node

/-- **Executes a command:** the reply and the node after it. -/
def execute (n : Node) : Command → Reply × Node
  | .update driverId latitude longitude =>
    match n.update driverId latitude longitude with
    | .ok n => (.done, n)
    | .error e => (.failed e, n)
  | .nearby latitude longitude limit =>
    let (found, n) := n.nearby latitude longitude limit
    (.ofResult .drivers found, n)
  | .locate driverId => (.ofResult .position (n.service.position driverId), n)
  | .remove driverId =>
    let (wasPresent, n) := n.remove driverId
    (.removed wasPresent, n)
  | .ingest point =>
    let (outcome, n) := n.ingest point
    (.ofResult .ingested (outcome.within n.service.requestTimeout), n)
  | .track driverId count =>
    let (outcome, n) := n.track driverId count
    (.ofResult .points (outcome.within n.service.requestTimeout), n)
  | .stats => (.stats n.service.stats, n)

/-- **Handles a line:** the reply and the node after it. A line that is no command changes
nothing. -/
def handle (n : Node) (line : Bytes) : Reply × Node :=
  match Command.read? line with
  | some command => n.execute command
  | none => (.badRequest, n)

/-- What can happen to a node. -/
inductive Event where
  /-- A line arrives; when it is handled the worker runs. -/
  | line (line : Bytes)
  /-- Stale drivers are dropped. -/
  | sweep
  | advance (step : Duration)
  | depot (command : Depot.Command)

/-- What comes of an event. -/
inductive Response where
  | reply (reply : Reply)
  | swept (count : Nat)
  | time (now : Timestamp)
  | depot (answer : Depot.Answer)

/-- **One event:** what comes of it and the node after it. -/
def run (n : Node) : Event → Response × Node
  | .line line =>
    let (reply, n) := n.handle line
    (.reply reply, n.settle)
  | .sweep =>
    let (count, n) := n.sweep
    (.swept count, n)
  | .advance step => let n := n.advance step; (.time n.now, n)
  | .depot command =>
    let (answer, n) := n.command command
    (.depot answer, n)

end Fleet.Node
