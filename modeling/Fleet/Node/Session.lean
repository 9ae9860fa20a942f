import Fleet.Cli.Arguments
import Fleet.Node.Handle

/-!
# The node as a program

A node is set up from a command line and the environment, reads commands line by line, and replies
to each. Its tracks are kept in memory, or in a directory that outlives it.
-/

namespace Fleet.Node

open Cli

/-- The options of the program. -/
def settings : List Setting := [
  { name := "bucket-size", kind := .float, environment := some "BUCKET_SIZE" },
  { name := "stale-timeout-secs", kind := .natural (2 ^ 64),
    environment := some "POSITION_STALE_TIMEOUT_SECS" },
  { name := "cleanup-interval-secs", kind := .natural (2 ^ 64),
    environment := some "CLEANUP_INTERVAL_SECS" },
  { name := "max-speed-kph", kind := .float, environment := some "MAX_REASONABLE_SPEED_KPH" },
  { name := "window-size", kind := .natural (2 ^ 64), environment := some "ANALYSIS_WINDOW_SIZE" },
  { name := "queue-capacity", kind := .natural (2 ^ 64),
    environment := some "FORWARD_QUEUE_CAPACITY" },
  { name := "request-timeout-ms", kind := .natural (2 ^ 64),
    environment := some "REQUEST_TIMEOUT_MS" },
  { name := "neighbor-search", kind := .switch, environment := some "NEIGHBOR_SEARCH" },
  { name := "data-dir", kind := .value fun s => !s.isEmpty, environment := some "DATA_DIR" }]

/-- The configuration that options ask for. Retention grows with the window if need be. -/
def configOf (given : Given) : Config :=
  let d : Config := {}
  let windowSize := given.natural "window-size" d.store.windowSize
  { d with
    index := {
      cellSize := given.float "bucket-size" d.index.cellSize
      staleTimeout := .ofSeconds (given.natural "stale-timeout-secs" 30)
      cleanupInterval := .ofSeconds (given.natural "cleanup-interval-secs" 300)
      neighborSearch := given.switch "neighbor-search" }
    maxReasonableSpeed := given.float "max-speed-kph" d.maxReasonableSpeed
    store := {
      d.store with
      windowSize
      maxPointsRetained := max d.store.maxPointsRetained windowSize }
    forwarder := {
      d.forwarder with
      queueCapacity := given.natural "queue-capacity" d.forwarder.queueCapacity }
    requestTimeout := .ofMillis (given.natural "request-timeout-ms" 1000) }

/-- The directory for the tracks, if there is one. -/
def directory? (given : Given) : Option String := given.lookup "data-dir"

/-- What is said about a configuration that is refused. -/
def complaint (e : FleetError) : String :=
  "Error: invalid configuration\n\nCaused by:\n    " ++ e.message ++ "\n"

/-- The end of a program that cannot make the queue it is asked for. -/
def queueTooLarge : Exit where
  code := 101
  complaint := "Error: queue capacity above " ++ Notation.ofNat Forwarder.maxCapacity ++ "\n"

/-- **Sets up a node** from a command line and the environment, and says where its tracks are
kept. `stored` is what the directory holds, for a node that has one. -/
def start (environment : List (String × String)) (arguments : List String)
    (stored : String → Ordered) : Except Exit (Node × Option String) := do
  let given ← (parse settings environment arguments).mapError Refusal.exit
  let directory := directory? given
  let storage := match directory with
    | some path => Storage.ordered (stored path)
    | none => .memory {}
  let config := configOf given
  match Node.new config storage with
  | .ok node =>
    if Forwarder.maxCapacity < config.forwarder.queueCapacity then throw queueTooLarge
    return (node, directory)
  | .error e => throw { code := 1, complaint := complaint e }

/-- Characters that do not show. -/
def isBlank (c : Char) : Bool :=
  let n := c.toNat
  (9 ≤ n && n ≤ 13) || n = 32 || n = 0x85 || n = 0xA0 || n = 0x1680
    || (0x2000 ≤ n && n ≤ 0x200A) || n = 0x2028 || n = 0x2029 || n = 0x202F || n = 0x205F
    || n = 0x3000

/-- A line without the blanks at its ends. -/
def trimmed (line : String) : String :=
  .ofList ((line.toList.dropWhile isBlank).reverse.dropWhile isBlank).reverse

/-- **A line that was read:** no reply to an empty one, otherwise the reply, after which the
worker runs. -/
def answerLine (n : Node) (line : String) : Option Reply × Node :=
  let line := trimmed line
  if line.isEmpty then (none, n)
  else
    let (reply, n) := n.handle (Bytes.ofText line)
    (some reply, n.settle)

/-- **A session:** the replies to the lines that were read, and the node after it. -/
def session (n : Node) (lines : List String) : List Reply × Node :=
  lines.foldl (fun (replies, n) line =>
    let (reply, n) := n.answerLine line
    (replies ++ reply.toList, n)) ([], n)

/-- What a node leaves behind in its directory. -/
def stored? (n : Node) : Option Ordered :=
  match n.depot.backend.storage with
  | .ordered o => some o
  | .memory _ => none

end Fleet.Node
