import Fleet.Json.Pretty
import Fleet.Node.Session
import Fleet.Service.Sweeper
import Fleet.Sim.Session
import Std.Time.DateTime

/-!
# The programs

`fleet node` serves commands from standard input, one line at a time, and `fleet sim` plays
scenarios. Everything that is decided is decided elsewhere; here lines are read and written and
the clock of the machine is read. The tracks of a node with a directory are held by the backend
that goes with one, for as long as the program runs.
-/

namespace Fleet

/-- The nanoseconds in a millisecond times the start of the virtual clock. -/
def epochNanos : Int := Clock.epochMillis * nanosPerMilli

/-- What the clock of the machine shows. -/
def machineClock : IO Clock := do
  let now ← Std.Time.Timestamp.now
  return Clock.start.advanceNanos (now.toNanosecondsSinceUnixEpoch.val - epochNanos).toNat

/-- Writes a line to standard output. -/
def writeLine (line : Bytes) : IO Unit := do
  let out ← IO.getStdout
  out.write ⟨(line ++ [10]).toArray⟩
  out.flush

/-- Ends a program. -/
def leave (e : Cli.Exit) : IO UInt32 := do
  IO.eprint e.complaint
  return UInt32.ofNat e.code

/-- The environment variables that a program looks at. -/
def environmentOf (settings : List Cli.Setting) : IO (List (String × String)) := do
  settings.filterMapM fun s => do
    match s.environment with
    | none => return none
    | some name => return (← IO.getEnv name).map (name, ·)

/-- Answers lines until the input ends. Before each the sweeper is given a chance to run. -/
partial def serveLines (input : IO.FS.Stream) (sweeper : Sweeper) (node : Node) : IO Unit := do
  let line ← input.getLine
  if line.isEmpty then return
  let clock ← machineClock
  let (sweeper, service) := sweeper.poll clock node.service
  let (reply, node) := { node with clock, service }.answerLine line
  if let some reply := reply then writeLine reply.line
  serveLines input sweeper node

/-- The program that serves commands. -/
def nodeMain (arguments : List String) : IO UInt32 := do
  match Node.start (← environmentOf Node.settings) arguments (fun _ => {}) with
  | .error e => leave e
  | .ok (node, _) =>
    let clock ← machineClock
    serveLines (← IO.getStdin) (.start clock node.service.index.config.cleanupInterval) node
    return 0

/-- The program that plays scenarios. -/
def simulatorMain (arguments : List String) : IO UInt32 := do
  match Simulator.plan arguments with
  | .error e => leave e
  | .ok plan =>
    let results := plan.run (UInt64.ofNat (← machineClock).elapsed)
    if plan.wantsSummary then writeLine ((Simulator.summary results).pretty 0)
    leave (Simulator.exitOf results)

end Fleet

/-- Starts the program that the first argument names. -/
def main : List String → IO UInt32
  | "node" :: arguments => Fleet.nodeMain arguments
  | "sim" :: arguments => Fleet.simulatorMain arguments
  | _ => do
    IO.eprintln "usage: fleet (node | sim) [options]"
    return 2
