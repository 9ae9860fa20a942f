import Fleet.Backend.Request

/-!
# Sessions with a backend

A computation that asks a backend, one request at a time, and keeps a state of its own. It is a
tree: at each request it shows the state it has reached, so it can be stopped there for good, or
interleaved with others, and what it leaves behind is known. A backend's failure ends the
computation unless it is caught.
-/

namespace Fleet

/-- **A computation that asks a backend,** with states `σ` and results `α`. -/
inductive Session (σ α : Type) where
  /-- The end: the last state and the result. -/
  | done (state : σ) (result : Except FleetError α)
  /-- A request, the state at that moment, and how the computation goes on with the answer. -/
  | ask (state : σ) (request : Request) (resume : request.Result → Session σ α)

namespace Session

variable {σ α β : Type}

/-- Goes on with another computation at the end. -/
def andThen : Session σ α → (σ → Except FleetError α → Session σ β) → Session σ β
  | .done state result, next => next state result
  | .ask state request resume, next => .ask state request fun answer => (resume answer).andThen next

/-- Three computations in a row may be grouped either way. -/
theorem andThen_assoc {γ : Type} (m : Session σ α) (f : σ → Except FleetError α → Session σ β)
    (g : σ → Except FleetError β → Session σ γ) :
    (m.andThen f).andThen g = m.andThen fun s r => (f s r).andThen g := by
  induction m with
  | done => rfl
  | ask state request resume ih =>
    simp only [andThen]
    congr
    funext answer
    exact ih answer

end Session

/-- A computation that starts from a given state. -/
def Query (σ α : Type) : Type := σ → Session σ α

namespace Query

variable {σ α : Type}

instance : Monad (Query σ) where
  pure a := fun s => .done s (.ok a)
  bind m next := fun s => (m s).andThen fun s result =>
    match result with
    | .ok a => next a s
    | .error e => .done s (.error e)

instance : MonadExceptOf FleetError (Query σ) where
  throw e := fun s => .done s (.error e)
  tryCatch m handle := fun s => (m s).andThen fun s result =>
    match result with
    | .ok a => .done s (.ok a)
    | .error e => handle e s

instance : MonadStateOf σ (Query σ) where
  get := fun s => .done s (.ok s)
  set s := fun _ => .done s (.ok ())
  modifyGet f := fun s => let (a, s) := f s; .done s (.ok a)

/-- **Asks the backend.** Its failure is this computation's failure. -/
def request (r : Request) : Query σ r.Reply := fun s =>
  .ask s r fun result => .done s (result.mapError FleetError.unavailable)

/-- Fails unless there is a value. -/
def orFail (e : FleetError) : Option α → Query σ α
  | some a => pure a
  | none => throw e

end Query

/-- How a session with a backend ends. -/
inductive Outcome (α : Type) where
  | finished (result : Except FleetError α)
  /-- A request is never answered. -/
  | stalled

namespace Outcome

variable {α β : Type}

/-- The outcome with a function applied to its result. -/
def map (f : α → β) : Outcome α → Outcome β
  | .finished result => .finished (result.map f)
  | .stalled => .stalled

/-- The result under a deadline: a session that is not answered is cancelled when it expires. -/
def within (deadline : Duration) : Outcome α → Except FleetError α
  | .finished result => result
  | .stalled => .error (.timedOut deadline)

end Outcome

/-- **Holds a session with a backend.** A session that is not answered ends in the state it
showed. -/
def Session.run {σ α β : Type} (serve : Server β) : Session σ α → β → Outcome α × σ × β
  | .done state result, backend => (.finished result, state, backend)
  | .ask state request resume, backend =>
    match serve backend request with
    | (none, backend) => (.stalled, state, backend)
    | (some answer, backend) => (resume answer).run serve backend

/-- Two computations in a row are held one after the other, unless the first is not answered. -/
theorem Session.run_andThen {σ α β γ : Type} (serve : Server γ) (m : Session σ α)
    (next : σ → Except FleetError α → Session σ β) (backend : γ) :
    (m.andThen next).run serve backend =
      match m.run serve backend with
      | (.finished result, state, backend) => (next state result).run serve backend
      | (.stalled, state, backend) => (.stalled, state, backend) := by
  induction m generalizing backend with
  | done => rfl
  | ask state request resume ih =>
    simp only [andThen, run]
    rcases serve backend request with ⟨_ | answer, after⟩
    · rfl
    · exact ih answer after

end Fleet
