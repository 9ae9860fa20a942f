import Fleet.Backend.Faults

/-!
# Commands to a backend

Requests and injected failures as data, and what each answers.
-/

namespace Fleet.Backend

/-- What can be done to a backend. -/
inductive Command where
  | request (request : Request)
  | listLength (key : String)
  | setAvailable (available : Bool)
  | inject (method : Method) (times : Nat)
  | stall (stalled : Bool)
  /-- Write out what is stored. Nothing is held back, so nothing happens. -/
  | flush

/-- What a command answers. -/
inductive Answer where
  | result (request : Request) (result : request.Result)
  /-- The backend is stalled. -/
  | unanswered
  | length (count : Option Nat)
  | done

/-- **One command:** its answer and the backend after it. -/
def run (clock : Clock) (b : Backend) : Command → Answer × Backend
  | .request r =>
    match b.serve clock r with
    | (none, after) => (.unanswered, after)
    | (some result, after) => (.result r result, after)
  | .listLength key => (.length (b.storage.listLength? key), b)
  | .setAvailable available =>
    (.done, { b with storage := b.storage.setAvailable available })
  | .inject method times => (.done, b.inject method times)
  | .stall stalled => (.done, { b with stalled })
  | .flush => (.done, b)

end Fleet.Backend
