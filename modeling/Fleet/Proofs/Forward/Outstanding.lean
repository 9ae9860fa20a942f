import Fleet.Proofs.Forward.Conservation

/-!
# The counter of outstanding envelopes

A forwarder in the middle of calls: any number of producers and the worker, each of which can be
stopped between any two of its atomic steps.  A call announces its envelope, offers it, withdraws it
if it was refused, and counts what became of it; the worker takes an envelope, counts how its
delivery came out, and releases it.  `Exact` says what the counter of outstanding envelopes counts
at every moment, and every step keeps it; `outstanding_exact` puts it together for every
interleaving.  The worker may also go for good.  What it leaves behind then stays outstanding.
-/

namespace Fleet
namespace Forwarder

/-- **How far a call has come.** -/
inductive Progress where
  /-- The envelope is announced and not offered yet. -/
  | announced (e : Envelope)
  /-- The queue has answered. -/
  | answered (admission : Admission)
  /-- The envelope was refused and is withdrawn. -/
  | withdrawn (admission : Admission)
  /-- What became of the envelope is counted, and the producer is told whether it was queued. -/
  | returned (wasQueued : Bool)
deriving DecidableEq

/-- Whether a call is between the announcement of its envelope and the outcome of its offer, or the
withdrawal if the envelope was refused. -/
def Progress.isOutstanding : Progress → Bool
  | .announced _ => true
  | .answered admission => !admission.isQueued
  | _ => false

/-- **A forwarder in the middle of calls,** with a record of what happened to its counter. -/
structure Traffic where
  forwarder : Forwarder
  /-- The calls in the order in which they began. -/
  calls : List Progress := []
  /-- Whether it is counted how the delivery that goes on came out. -/
  isCounted : Bool := false
  /-- How many envelopes the worker left behind when it went. -/
  abandoned : Nat := 0
  /-- How often the counter of outstanding envelopes was raised. -/
  raised : Nat := 0
  /-- How often it was lowered. -/
  lowered : Nat := 0

/-- **An atomic step** of a producer or of the worker. -/
inductive Step where
  /-- A call begins: the envelope is announced. -/
  | call (e : Envelope)
  /-- A call that has begun takes its next step. -/
  | act (i : Nat)
  /-- The worker takes the oldest envelope, if it is idle and there is one. -/
  | take
  /-- The worker counts how the delivery came out. -/
  | count (wasAccepted : Bool)
  /-- The worker releases the envelope. -/
  | release
  /-- The worker goes for good. -/
  | stop
deriving DecidableEq

/-- Whether a step is one of a worker that stays. -/
def Step.isWork : Step → Bool
  | .take => true
  | .count _ => true
  | .release => true
  | _ => false

namespace Traffic

/-- A forwarder to which nothing has happened. -/
def new (config : ForwarderConfig) : Traffic := { forwarder := .new config }

/-- How many calls are between the announcement and the outcome of their offer. -/
def underway (t : Traffic) : Nat := t.calls.countP Progress.isOutstanding

/-- A call takes its next step. -/
def act (t : Traffic) (i : Nat) : Traffic :=
  match t.calls[i]? with
  | some (.announced e) =>
    { t with
      forwarder := (t.forwarder.offer e).2
      calls := t.calls.set i (.answered (t.forwarder.offer e).1) }
  | some (.answered admission) =>
    if admission.isQueued then
      { t with
        forwarder := t.forwarder.tally admission
        calls := t.calls.set i (.returned true) }
    else
      { t with
        forwarder := t.forwarder.withdraw
        calls := t.calls.set i (.withdrawn admission)
        lowered := t.lowered + 1 }
  | some (.withdrawn admission) =>
    { t with
      forwarder := t.forwarder.tally admission
      calls := t.calls.set i (.returned false) }
  | _ => t

/-- A call begins. -/
def call (t : Traffic) (e : Envelope) : Traffic :=
  { t with
    forwarder := t.forwarder.announce
    calls := t.calls ++ [.announced e]
    raised := t.raised + 1 }

/-- The worker takes the oldest envelope, if it is idle and there is one. -/
def take (t : Traffic) : Traffic :=
  match t.forwarder.take? with
  | none => t
  | some (_, f) => { t with forwarder := f, isCounted := false }

/-- The worker counts how the delivery that goes on came out, once. -/
def count (t : Traffic) (wasAccepted : Bool) : Traffic :=
  if t.forwarder.inDelivery.isSome && !t.isCounted then
    { t with forwarder := t.forwarder.countOutcome wasAccepted, isCounted := true }
  else t

/-- The worker releases the envelope whose delivery it has counted. -/
def release (t : Traffic) : Traffic :=
  if t.forwarder.inDelivery.isSome && t.isCounted then
    { t with forwarder := t.forwarder.release, isCounted := false, lowered := t.lowered + 1 }
  else t

/-- The worker goes. -/
def stop (t : Traffic) : Traffic :=
  { t with
    forwarder := t.forwarder.close
    isCounted := false
    abandoned := t.abandoned + (t.forwarder.queue.length + t.forwarder.inFlight) }

/-- One step is taken.  A step whose turn has not come changes nothing. -/
def next (t : Traffic) : Step → Traffic
  | .call e => t.call e
  | .act i => t.act i
  | .take => t.take
  | .count wasAccepted => t.count wasAccepted
  | .release => t.release
  | .stop => t.stop

/-- Many steps are taken, one after the other. -/
def after (t : Traffic) (steps : List Step) : Traffic := steps.foldl next t

/-! ## What the counter counts -/

/-- **The counter is exact.** -/
structure Exact (t : Traffic) : Prop where
  outstanding_eq : t.forwarder.outstanding =
    t.underway + (t.forwarder.queue.length + t.forwarder.inFlight) + t.abandoned
  raised_eq : t.forwarder.outstanding + t.lowered = t.raised
  kept : t.forwarder.isClosed = false → t.abandoned = 0

theorem exact_new (config : ForwarderConfig) : (new config).Exact where
  outstanding_eq := rfl
  raised_eq := rfl
  kept _ := rfl

/-- When a call comes further, the number of calls under way changes by its share. -/
theorem countP_set_add {calls : List Progress} {i : Nat} {p : Progress} (hp : calls[i]? = some p)
    (p' : Progress) :
    (calls.set i p').countP Progress.isOutstanding + p.isOutstanding.toNat =
      calls.countP Progress.isOutstanding + p'.isOutstanding.toNat := by
  obtain ⟨hi, hget⟩ := List.getElem?_eq_some_iff.mp hp
  have hshare : p.isOutstanding.toNat ≤ calls.countP Progress.isOutstanding := by
    cases hshare : p.isOutstanding with
    | false => exact Nat.zero_le _
    | true => exact List.countP_pos_iff.mpr ⟨p, List.mem_of_getElem? hp, hshare⟩
  have htoNat (b : Bool) : (if b = true then 1 else 0) = b.toNat := by cases b <;> rfl
  rw [List.countP_set hi, hget, htoNat, htoNat]
  omega

section Steps

variable {t : Traffic} (h : t.Exact)
include h

theorem Exact.call (e : Envelope) : (t.call e).Exact := by
  have houtstanding := h.outstanding_eq
  have hraised := h.raised_eq
  have hunderway : (t.call e).underway = t.underway + 1 := List.countP_append
  refine ⟨?_, ?_, h.kept⟩
  · rw [hunderway]
    show t.forwarder.outstanding + 1 =
      t.underway + 1 + (t.forwarder.queue.length + t.forwarder.inFlight) + t.abandoned
    omega
  · show t.forwarder.outstanding + 1 + t.lowered = t.raised + 1
    omega

/-- An envelope that is queued is counted with the queue from then on; the call of one that is
refused goes on counting. -/
theorem Exact.offer {i : Nat} {e : Envelope} (hi : t.calls[i]? = some (.announced e)) :
    Exact { t with
      forwarder := (t.forwarder.offer e).2
      calls := t.calls.set i (.answered (t.forwarder.offer e).1) } := by
  have houtstanding := h.outstanding_eq
  have hcalls := countP_set_add hi (.answered (t.forwarder.offer e).1)
  unfold underway at houtstanding
  rw [Forwarder.offer] at hcalls ⊢
  split
  · -- the worker is gone
    rename_i hclosed
    rw [if_pos hclosed] at hcalls
    have hsame := Nat.add_right_cancel hcalls
    exact ⟨houtstanding.trans (congrArg (· + _ + _) hsame.symm), h.raised_eq, h.kept⟩
  · rename_i hopen
    rw [if_neg hopen] at hcalls
    split
    · rename_i hroom
      rw [if_pos hroom] at hcalls
      refine ⟨?_, h.raised_eq, h.kept⟩
      simp only [underway, inFlight, List.length_append, List.length_singleton] at houtstanding ⊢
      simp only [Progress.isOutstanding, Admission.isQueued, decide_true, Bool.not_true,
        Bool.toNat_true, Bool.toNat_false] at hcalls
      omega
    · rename_i hfull
      rw [if_neg hfull] at hcalls
      exact ⟨houtstanding.trans (congrArg (· + _ + _) (Nat.add_right_cancel hcalls).symm),
        h.raised_eq, h.kept⟩

/-- Counting what became of an envelope does not touch the counter of those outstanding. -/
theorem Exact.tally {i : Nat} {p : Progress} (hi : t.calls[i]? = some p)
    (hshare : p.isOutstanding = false) (admission : Admission) (wasQueued : Bool) :
    Exact { t with
      forwarder := t.forwarder.tally admission
      calls := t.calls.set i (.returned wasQueued) } := by
  have hcalls := countP_set_add hi (.returned wasQueued)
  rw [hshare] at hcalls
  have hunderway : (t.calls.set i (.returned wasQueued)).countP Progress.isOutstanding =
    t.underway := hcalls
  have houtstanding := h.outstanding_eq
  rw [← hunderway] at houtstanding
  cases admission <;> exact ⟨houtstanding, h.raised_eq, h.kept⟩

/-- **A refused envelope is withdrawn,** and the counter is above zero then, for the call is one of
those it counts. -/
theorem Exact.withdraw {i : Nat} {admission : Admission}
    (hi : t.calls[i]? = some (.answered admission)) (hrefused : admission.isQueued = false) :
    Exact { t with
      forwarder := t.forwarder.withdraw
      calls := t.calls.set i (.withdrawn admission)
      lowered := t.lowered + 1 } := by
  have houtstanding := h.outstanding_eq
  have hraised := h.raised_eq
  have hcalls := countP_set_add hi (.withdrawn admission)
  simp only [Progress.isOutstanding, hrefused, Bool.not_false, Bool.toNat_true, Bool.toNat_false]
    at hcalls
  unfold underway at houtstanding
  refine ⟨?_, ?_, h.kept⟩
  · show t.forwarder.outstanding - 1 =
      (t.calls.set i (.withdrawn admission)).countP Progress.isOutstanding +
        (t.forwarder.queue.length + t.forwarder.inFlight) + t.abandoned
    omega
  · show t.forwarder.outstanding - 1 + (t.lowered + 1) = t.raised
    omega

theorem Exact.act (i : Nat) : (t.act i).Exact := by
  unfold Traffic.act
  split
  · exact h.offer ‹_›
  · rename_i admission hi
    cases hqueued : admission.isQueued with
    | true => exact h.tally hi (by simp [Progress.isOutstanding, hqueued]) admission true
    | false => exact h.withdraw hi hqueued
  · exact h.tally ‹_› rfl _ false
  · exact h

theorem Exact.take : t.take.Exact := by
  unfold Traffic.take
  split
  · exact h
  · rename_i e f htake
    obtain ⟨hidle, rest, hqueue, rfl⟩ := take?_eq_some_iff.mp htake
    refine ⟨h.outstanding_eq.trans ?_, h.raised_eq, h.kept⟩
    -- the envelope leaves the queue and is in delivery
    show t.underway + (t.forwarder.queue.length + t.forwarder.inFlight) + t.abandoned =
      t.underway + (rest.length + 1) + t.abandoned
    rw [hqueue, inFlight, hidle]
    rfl

theorem Exact.count (wasAccepted : Bool) : (t.count wasAccepted).Exact := by
  unfold Traffic.count
  split
  · cases wasAccepted <;> exact ⟨h.outstanding_eq, h.raised_eq, h.kept⟩
  · exact h

/-- **The worker releases an envelope,** and the counter is above zero then, for the envelope is one
of those it counts. -/
theorem Exact.release : t.release.Exact := by
  unfold Traffic.release
  split
  · rename_i hcounted
    obtain ⟨e, he⟩ := Option.isSome_iff_exists.mp (Bool.and_eq_true_iff.mp hcounted).1
    have houtstanding := h.outstanding_eq
    have hraised := h.raised_eq
    have hbusy : t.forwarder.inFlight = 1 := by
      rw [inFlight, he]
      rfl
    refine ⟨?_, ?_, h.kept⟩
    · show t.forwarder.outstanding - 1 =
        t.underway + (t.forwarder.queue.length + 0) + t.abandoned
      omega
    · show t.forwarder.outstanding - 1 + (t.lowered + 1) = t.raised
      omega
  · exact h

/-- What the worker leaves behind stays outstanding. -/
theorem Exact.stop : t.stop.Exact where
  outstanding_eq := by
    have houtstanding := h.outstanding_eq
    show t.forwarder.outstanding =
      t.underway + (0 + 0) + (t.abandoned + (t.forwarder.queue.length + t.forwarder.inFlight))
    omega
  raised_eq := h.raised_eq
  kept hopen := nomatch hopen

end Steps

/-- **Every atomic step keeps the counter exact.** -/
theorem Exact.next {t : Traffic} (h : t.Exact) (step : Step) : (t.next step).Exact := by
  cases step with
  | call e => exact h.call e
  | act i => exact h.act i
  | take => exact h.take
  | count wasAccepted => exact h.count wasAccepted
  | release => exact h.release
  | stop => exact h.stop

theorem Exact.after {t : Traffic} (h : t.Exact) (steps : List Step) : (t.after steps).Exact := by
  induction steps generalizing t with
  | nil => exact h
  | cons step steps ih => exact ih (h.next step)

/-- Where the counter reads zero there is nothing to wait for. -/
theorem Exact.empty_of_zero {t : Traffic} (h : t.Exact) (hzero : t.forwarder.outstanding = 0) :
    t.forwarder.queue = [] ∧ t.forwarder.inDelivery = none := by
  have houtstanding := h.outstanding_eq
  have hnone : t.forwarder.queue.length = 0 ∧ t.forwarder.inFlight = 0 := by omega
  exact ⟨List.length_eq_zero_iff.mp hnone.1,
    Option.toList_eq_nil_iff.mp (List.length_eq_zero_iff.mp hnone.2)⟩

/-! ## Steps that follow one another -/

section LastCall

variable {t : Traffic} {old : List Progress}

theorem act_of_announced {e : Envelope} (hcalls : t.calls = old ++ [.announced e]) :
    t.act old.length = { t with
      forwarder := (t.forwarder.offer e).2
      calls := old ++ [.answered (t.forwarder.offer e).1] } := by
  simp [act, hcalls]

theorem act_of_answered {admission : Admission} (hcalls : t.calls = old ++ [.answered admission]) :
    t.act old.length =
      if admission.isQueued then
        { t with forwarder := t.forwarder.tally admission, calls := old ++ [.returned true] }
      else
        { t with
          forwarder := t.forwarder.withdraw
          calls := old ++ [.withdrawn admission]
          lowered := t.lowered + 1 } := by
  simp [act, hcalls]

theorem act_of_withdrawn {admission : Admission}
    (hcalls : t.calls = old ++ [.withdrawn admission]) :
    t.act old.length =
      { t with forwarder := t.forwarder.tally admission, calls := old ++ [.returned false] } := by
  simp [act, hcalls]

end LastCall

/-- **A call whose steps follow one another is `forward`.** -/
theorem exists_after_call (t : Traffic) (e : Envelope) :
    ∃ n, let t' := t.after (.call e :: List.replicate n (.act t.calls.length))
      t'.forwarder = (t.forwarder.forward e).2 ∧
        t'.calls = t.calls ++ [.returned (t.forwarder.forward e).1] := by
  have hforward : t.forwarder.forward e =
      ((t.forwarder.announce.offer e).1.isQueued,
        (t.forwarder.announce.offer e).2.conclude (t.forwarder.announce.offer e).1) := rfl
  have hoffered : (t.call e).act t.calls.length = { t.call e with
      forwarder := (t.forwarder.announce.offer e).2
      calls := t.calls ++ [.answered (t.forwarder.announce.offer e).1] } :=
    act_of_announced rfl
  rw [hforward]
  generalize t.forwarder.announce.offer e = offered at hoffered
  obtain ⟨admission, f⟩ := offered
  cases hqueued : admission.isQueued with
  | true =>
    have hanswered : Traffic.act
        { t.call e with forwarder := f, calls := t.calls ++ [.answered admission] }
        t.calls.length =
          { t.call e with forwarder := f.tally admission, calls := t.calls ++ [.returned true] } :=
      (act_of_answered rfl).trans (if_pos hqueued)
    refine ⟨2, ?_⟩
    have hafter : t.after (.call e :: List.replicate 2 (.act t.calls.length)) = _ :=
      (congrArg (act · t.calls.length) hoffered).trans hanswered
    rw [hafter, conclude, if_pos hqueued]
    exact ⟨rfl, rfl⟩
  | false =>
    have hrefused : ¬admission.isQueued = true := hqueued ▸ Bool.false_ne_true
    have hanswered : Traffic.act
        { t.call e with forwarder := f, calls := t.calls ++ [.answered admission] }
        t.calls.length =
          { t.call e with
            forwarder := f.withdraw
            calls := t.calls ++ [.withdrawn admission]
            lowered := t.lowered + 1 } :=
      (act_of_answered rfl).trans (if_neg hrefused)
    have hwithdrawn : Traffic.act
        { t.call e with
          forwarder := f.withdraw
          calls := t.calls ++ [.withdrawn admission]
          lowered := t.lowered + 1 }
        t.calls.length =
          { t.call e with
            forwarder := f.withdraw.tally admission
            calls := t.calls ++ [.returned false]
            lowered := t.lowered + 1 } :=
      act_of_withdrawn rfl
    refine ⟨3, ?_⟩
    have hafter : t.after (.call e :: List.replicate 3 (.act t.calls.length)) = _ :=
      (congrArg (fun t' => (t'.act t.calls.length).act t.calls.length) hoffered).trans
        ((congrArg (act · t.calls.length) hanswered).trans hwithdrawn)
    rw [hafter, conclude, if_neg hrefused]
    exact ⟨rfl, rfl⟩

/-- **A turn of the worker is `take?` and then `settle`.** -/
theorem forwarder_after_turn {t : Traffic} {e : Envelope} {f : Forwarder}
    (htake : t.forwarder.take? = some (e, f)) (wasAccepted : Bool) :
    (t.after [.take, .count wasAccepted, .release]).forwarder = f.settle wasAccepted := by
  obtain ⟨-, rest, -, rfl⟩ := take?_eq_some_iff.mp htake
  cases wasAccepted <;> simp [after, next, take, htake, count, release, countOutcome, settle]

end Traffic

open Traffic in
/-- **The counter of outstanding envelopes is exact at every moment.**  However the atomic steps of
any number of producers and of the worker interleave:

* Whenever the counter is lowered it is above zero: what was raised is what is there and what was
  lowered, and no subtraction is cut off.
* It counts the calls between their announcement and the outcome of their offer, or the withdrawal
  after a refusal, the envelopes that are queued, the one that the worker has taken and not
  released, and those that a worker left behind that is gone; a worker that lives leaves none.
* When it reads zero, nothing is queued and nothing in delivery.
* The steps are those of the forwarder: a call whose steps follow one another is `forward`, and a
  turn of the worker is `take?` with `settle`. -/
theorem outstanding_exact (config : ForwarderConfig) (steps : List Step) :
    let t := (Traffic.new config).after steps
    let f := t.forwarder
    f.outstanding + t.lowered = t.raised ∧
    f.outstanding = t.underway + (f.queue.length + f.inFlight) + t.abandoned ∧
    (f.isClosed = false → t.abandoned = 0) ∧
    (f.pending = 0 → f.queue = [] ∧ f.inDelivery = none) ∧
    (∀ e, ∃ n, let t' := t.after (.call e :: List.replicate n (.act t.calls.length))
      t'.forwarder = (f.forward e).2 ∧ t'.calls = t.calls ++ [.returned (f.forward e).1]) ∧
    ∀ e f', f.take? = some (e, f') → ∀ wasAccepted,
      (t.after [.take, .count wasAccepted, .release]).forwarder = f'.settle wasAccepted := by
  intro t f
  have h : t.Exact := (exact_new config).after steps
  exact ⟨h.raised_eq, h.outstanding_eq, h.kept, h.empty_of_zero, exists_after_call t,
    fun e f' htake => forwarder_after_turn htake⟩

/-- Two calls share the room for one envelope.  The one that is refused goes on counting until it
withdraws its envelope, and when the other envelope is delivered nothing is outstanding. -/
theorem outstanding_exact_of_refused_call :
    let e : Envelope := ⟨"d", [], 0⟩
    let steps : List Step := [.call e, .call e, .act 0, .act 1]
    let rest : List Step := [.act 1, .take, .count true, .release]
    let t := (Traffic.new { queueCapacity := 1 }).after steps
    let t' := (Traffic.new { queueCapacity := 1 }).after (steps ++ rest)
    t.forwarder.outstanding = 2 ∧ t.forwarder.isClosed = false ∧ t.abandoned = 0 ∧
      (∃ f, t.forwarder.take? = some (e, f) ∧
        (t.after [.take, .count true, .release]).forwarder = f.settle true) ∧
      t'.forwarder.pending = 0 ∧ t'.forwarder.queue = [] ∧ t'.forwarder.inDelivery = none := by
  intro e steps rest t t'
  obtain ⟨-, -, hkept, -, -, hturn⟩ := outstanding_exact { queueCapacity := 1 } steps
  obtain ⟨-, -, -, hnone, -⟩ := outstanding_exact { queueCapacity := 1 } (steps ++ rest)
  exact ⟨rfl, rfl, hkept rfl, ⟨_, rfl, hturn _ _ rfl true⟩, rfl, hnone rfl⟩

/-- The worker goes with an envelope in delivery and another in the queue: both stay outstanding,
and a later call fails. -/
example :
    let e : Envelope := ⟨"d", [], 0⟩
    let t := (Traffic.new {}).after [.call e, .act 0, .call e, .act 1, .take, .stop, .call e,
      .act 2, .act 2, .act 2]
    t.forwarder.pending = 2 ∧ t.abandoned = 2 ∧ t.forwarder.stats.failed = 1 := by
  decide

end Forwarder
end Fleet
