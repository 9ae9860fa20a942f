import Fleet.Config
import Fleet.Forward.Sink

/-!
# The forwarder

A bounded queue of envelopes and a worker that hands them to a sink one after the other. Producers
never wait: an envelope that does not fit is dropped and counted. A counter of outstanding
envelopes rises before an envelope is queued and falls after it is settled, so it is zero only
when there is nothing left to do.

The atomic steps of a producer are `announce`, `offer`, for a refused envelope `withdraw`, and
`tally`; those of the worker are `take?`, `countOutcome` and `release`.
-/

namespace Fleet

/-- **The forwarder.** -/
structure Forwarder where
  config : ForwarderConfig
  /-- Envelopes that wait, oldest first. -/
  queue : List Envelope := []
  /-- The envelope that the worker is delivering. -/
  inDelivery : Option Envelope := none
  /-- Whether the worker is gone. -/
  isClosed : Bool := false
  /-- Envelopes announced and not yet settled. -/
  outstanding : Nat := 0
  stats : ForwarderStats := {}

namespace Forwarder

/-- No queue can be larger. -/
def maxCapacity : Nat := 2 ^ 61 - 1

/-- The forwarder before any envelope. -/
def new (config : ForwarderConfig) : Forwarder := { config }

/-- What the queue does with an envelope. -/
inductive Admission where
  | queued
  | full
  | closed
deriving DecidableEq, Repr

/-- Whether the queue took the envelope. -/
def Admission.isQueued (a : Admission) : Bool := a = .queued

/-- A producer is about to offer an envelope. -/
def announce (f : Forwarder) : Forwarder := { f with outstanding := f.outstanding + 1 }

/-- A producer offers an envelope. -/
def offer (f : Forwarder) (e : Envelope) : Admission × Forwarder :=
  if f.isClosed then (.closed, f)
  else if f.queue.length < f.config.queueCapacity then
    (.queued, { f with queue := f.queue ++ [e] })
  else (.full, f)

/-- An envelope that was refused is no longer outstanding. -/
def withdraw (f : Forwarder) : Forwarder := { f with outstanding := f.outstanding - 1 }

/-- A producer counts what became of its envelope. -/
def tally (f : Forwarder) : Admission → Forwarder
  | .queued => { f with stats.enqueued := f.stats.enqueued + 1 }
  | .full => { f with stats.droppedFull := f.stats.droppedFull + 1 }
  | .closed => { f with stats.failed := f.stats.failed + 1 }

/-- What a producer does after its offer. -/
def conclude (f : Forwarder) (admission : Admission) : Forwarder :=
  (if admission.isQueued then f else f.withdraw).tally admission

/-- **Queues an envelope without waiting,** and tells whether there was room. -/
def forward (f : Forwarder) (e : Envelope) : Bool × Forwarder :=
  let (admission, f) := f.announce.offer e
  (admission.isQueued, f.conclude admission)

/-- Envelopes queued or in delivery. -/
def pending (f : Forwarder) : Nat := f.outstanding

/-- An idle worker takes the next envelope. -/
def take? (f : Forwarder) : Option (Envelope × Forwarder) :=
  match f.inDelivery, f.queue with
  | none, e :: rest => some (e, { f with inDelivery := some e, queue := rest })
  | _, _ => none

/-- The worker counts how the delivery came out. -/
def countOutcome (f : Forwarder) (wasAccepted : Bool) : Forwarder :=
  if wasAccepted then { f with stats.delivered := f.stats.delivered + 1 }
  else { f with stats.failed := f.stats.failed + 1 }

/-- The worker is done with the envelope in delivery. -/
def release (f : Forwarder) : Forwarder :=
  { f with inDelivery := none, outstanding := f.outstanding - 1 }

/-- The worker settles the envelope in delivery. -/
def settle (f : Forwarder) (wasAccepted : Bool) : Forwarder := (f.countOutcome wasAccepted).release

/-- The worker is gone. What was queued or in delivery stays outstanding. -/
def close (f : Forwarder) : Forwarder :=
  { f with queue := [], inDelivery := none, isClosed := true }

/-- The forwarder after a delivery came out. One that is never answered goes on until it is
settled. -/
def conclusion (f : Forwarder) : Delivery → Forwarder
  | .accepted => f.settle true
  | .refused _ => f.settle false
  | .unanswered => f
  | .fatal => f.close

/-- **One round of the worker:** takes an envelope and hands it to the sink; none if there is
nothing to take. -/
def step? {σ : Type} (sink : Sink σ) (f : Forwarder) (s : σ) : Option (Forwarder × σ) :=
  f.take?.map fun (e, f) =>
    let (delivery, s) := sink s e
    (f.conclusion delivery, s)

/-- At most that many rounds of the worker. -/
def rounds {σ : Type} (sink : Sink σ) : Nat → Forwarder → σ → Forwarder × σ
  | 0, f, s => (f, s)
  | n + 1, f, s =>
    match f.step? sink s with
    | none => (f, s)
    | some (f, s) => rounds sink n f s

/-- **The worker runs as far as it can.** Every round takes an envelope off the queue, so the
length of the queue bounds the rounds. -/
def work {σ : Type} (sink : Sink σ) (f : Forwarder) (s : σ) : Forwarder × σ :=
  f.rounds sink f.queue.length s

/-- How long a drain waits before it looks again. -/
def drainPoll : Duration := .ofMillis 10

/-- When a drain gives up; none if the clock cannot name that moment. -/
def drainDeadline? (clock : Clock) (timeout : Duration) : Option Duration := clock.now.add? timeout

/-- A drain looks at the counter: the number still pending if there is none or the deadline has
come, and nothing while it has to wait. -/
def drained? (f : Forwarder) (clock : Clock) (deadline : Duration) : Option Nat :=
  if f.pending = 0 ∨ deadline.nanos ≤ clock.now.nanos then some f.pending else none

end Forwarder

end Fleet
