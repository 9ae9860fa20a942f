import Fleet.Cli.Arguments
import Fleet.Json.Record
import Fleet.Sim.Runner

/-!
# The simulator as a program

Scenarios are chosen by a command line and played with one seed after the other. The summary of
what came of them is an object of JSON.
-/

namespace Fleet.Simulator

open Cli

/-- The options of the program. -/
def settings : List Setting := [
  { name := "seed", letter := some 's', kind := .natural (2 ^ 64) },
  { name := "drivers", letter := some 'd', kind := .natural (2 ^ 64) },
  { name := "scenario", letter := some 'S', kind := .text },
  { name := "seeds", kind := .natural (2 ^ 64) },
  { name := "duration", letter := some 't', kind := .float },
  { name := "verbose", letter := some 'v', kind := .switch },
  { name := "json", kind := .switch }]

/-- What is asked for. -/
structure Plan where
  scenarios : List Scenario
  /-- The first seed; zero asks for one from the clock. -/
  seed : UInt64
  seeds : Nat
  drivers : Nat
  duration : Float
  /-- Whether the summary is wanted. -/
  wantsSummary : Bool

/-- What is said about a scenario that nobody knows. -/
def complaint (name : String) : String :=
  "Error: " ++ Scenario.unknown name ++ "\nAvailable scenarios: "
    ++ ", ".intercalate (Scenario.all.map Scenario.name) ++ ", all\n"

/-- The scenarios that a name asks for. -/
def scenariosOf (name : String) : Except Exit (List Scenario) :=
  if name = "all" then .ok Scenario.all
  else
    match Scenario.ofName? name with
    | some s => .ok [s]
    | none => .error { code := 1, complaint := complaint name }

/-- **What a command line asks for.** -/
def plan (arguments : List String) : Except Exit Plan := do
  let given ← (parse settings [] arguments).mapError Refusal.exit
  return {
    scenarios := ← scenariosOf ((given.lookup "scenario").getD "all")
    seed := UInt64.ofNat (given.natural "seed" 42)
    seeds := given.natural "seeds" 1
    drivers := given.natural "drivers" 6
    duration := given.float "duration" 60
    wantsSummary := given.switch "json" }

/-- The first seed of a plan; `clock` stands in for zero. -/
def Plan.firstSeed (p : Plan) (clock : UInt64) : UInt64 := if p.seed = 0 then clock else p.seed

/-- **Carries out a plan:** every scenario with every seed. -/
def Plan.run (p : Plan) (clock : UInt64) : List ScenarioResult :=
  (List.range p.seeds).flatMap fun i =>
    let runner := Runner.new (p.firstSeed clock + UInt64.ofNat i) p.drivers p.duration
    p.scenarios.map runner.run

/-- How the program ends: with a failure if any scenario failed. -/
def exitOf (results : List ScenarioResult) : Exit :=
  if results.all ScenarioResult.passed then {} else { code := 1 }

open Wire

/-- The counts of a scenario, in the order of their names. -/
def metricsJson (m : Metrics) : Json := .record [
  ("anomalies_detected", some (toJson m.anomaliesDetected)),
  ("boundary_misses", some (toJson m.boundaryMisses)),
  ("drivers_evicted", some (toJson m.driversEvicted)),
  ("fixes_dropped", some (toJson m.fixesDropped)),
  ("fixes_forwarded", some (toJson m.fixesForwarded)),
  ("glitches_injected", some (toJson m.glitchesInjected)),
  ("queries_run", some (toJson m.queriesRun)),
  ("updates_sent", some (toJson m.updatesSent))]

/-- What came of a scenario, in the order of the names. -/
def resultJson (r : ScenarioResult) : Json := .record [
  ("drivers", some (toJson r.ending.drivers)),
  ("failure_reason", some (r.failure.elim .null .string)),
  ("metrics", some (metricsJson r.metrics)),
  ("passed", some (toJson r.passed)),
  ("scenario", some (toJson r.scenario.name)),
  ("seed", some (toJson r.seed)),
  ("ticks", some (toJson r.ending.ticks)),
  ("time_secs", some (toJson r.ending.time))]

/-- **The summary** of all results. -/
def summary (results : List ScenarioResult) : Json :=
  let passed := results.countP ScenarioResult.passed
  .record [
    ("failed", some (toJson (results.length - passed))),
    ("passed", some (toJson passed)),
    ("results", some (.array (results.map resultJson))),
    ("total", some (toJson results.length))]

end Fleet.Simulator
