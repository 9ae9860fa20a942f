import Fleet.Backend.Memory
import Fleet.Backend.Ordered

/-!
# A backend that can be made to fail

Either backend, with failures injected from outside: while it is stalled no request is ever
answered, and a number of requests of one kind can be made to fail. Neither has an effect on what
is stored.
-/

namespace Fleet

/-- One of the two backends. -/
inductive Storage where
  | memory (m : Memory)
  | ordered (o : Ordered)

namespace Storage

/-- The length of a list, where the backend can tell it. -/
def listLength? (key : String) : Storage → Option Nat
  | .memory m => some (m.list key).length
  | .ordered _ => none

/-- Starts or ends an outage of the backend in memory. -/
def setAvailable (available : Bool) : Storage → Storage
  | .memory m => .memory { m with available }
  | s => s

/-- Serves a request. The backend in memory measures times to live on the virtual clock, the other
one by the machine's clock, which does not move with it. -/
def serve (clock : Clock) (s : Storage) (r : Request) : r.Result × Storage :=
  match s with
  | .memory m => let (result, after) := m.serve clock.now r; (result, .memory after)
  | .ordered o => let (result, after) := o.serve Clock.epochMillis r; (result, .ordered after)

end Storage

/-- **A backend with injected failures.** -/
structure Backend where
  storage : Storage := .memory {}
  stalled : Bool := false
  /-- How many more requests of a kind fail. -/
  failures : Table Method Nat := ∅

namespace Backend

/-- How many more requests of a kind fail. -/
def pendingFailures (b : Backend) (m : Method) : Nat := (b.failures.get? m).getD 0

/-- Makes the next requests of a kind fail. -/
def inject (b : Backend) (m : Method) (times : Nat) : Backend :=
  { b with failures := b.failures.insert m times }

/-- **Serves a request,** unless it stalls or fails by injection. -/
def serve (clock : Clock) : Server Backend := fun b r =>
  if b.stalled then (none, b)
  else
    match b.pendingFailures r.method with
    | 0 =>
      let (result, storage) := b.storage.serve clock r
      (some result, { b with storage })
    | n + 1 => (some (.error (.storage ("injected " ++ r.method.name))), b.inject r.method n)

end Backend

end Fleet
