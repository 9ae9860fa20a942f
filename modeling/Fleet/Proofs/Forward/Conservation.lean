import Fleet.Forward.Forwarder

/-!
# A forwarder loses nothing and keeps the order

Producers and the worker of a forwarder act in any order: envelopes are forwarded, the worker takes
the oldest one, and its delivery ends well, badly or not in time.  `Balanced` ties the counters to
the queue and to the envelope in delivery, and every step keeps it; with a record of what was
offered, of what was handed to the sink and of how deliveries ended (`Journal`), `conservation` says
that the sink is handed the accepted envelopes in the order in which they were forwarded.
-/

namespace Fleet
namespace Forwarder

/-- How many envelopes are in delivery. -/
def inFlight (f : Forwarder) : Nat := f.inDelivery.toList.length

/-! ## The counters -/

/-- **The counters of a forwarder agree with what it holds.** -/
structure Balanced (f : Forwarder) : Prop where
  isOpen : f.isClosed = false
  room : f.queue.length ≤ f.config.queueCapacity
  outstanding_eq : f.outstanding = f.queue.length + f.inFlight
  enqueued_eq : f.stats.enqueued = f.stats.delivered + f.stats.failed + f.outstanding

theorem balanced_new (config : ForwarderConfig) : (new config).Balanced where
  isOpen := rfl
  room := Nat.zero_le _
  outstanding_eq := rfl
  enqueued_eq := rfl

/-- **What forwarding does while the worker lives.**  An envelope for which there is room is queued
and counted; one for which there is none is only counted. -/
theorem Balanced.forward_cases {f : Forwarder} (h : f.Balanced) (e : Envelope) :
    (f.queue.length < f.config.queueCapacity ∧
      f.forward e = (true, { f with
        queue := f.queue ++ [e]
        outstanding := f.outstanding + 1
        stats.enqueued := f.stats.enqueued + 1 })) ∨
    (f.config.queueCapacity ≤ f.queue.length ∧
      f.forward e = (false, { f with stats.droppedFull := f.stats.droppedFull + 1 })) := by
  by_cases hroom : f.queue.length < f.config.queueCapacity
  · refine Or.inl ⟨hroom, ?_⟩
    simp [forward, announce, offer, conclude, tally, Admission.isQueued, h.isOpen, hroom]
  · refine Or.inr ⟨Nat.le_of_not_lt hroom, ?_⟩
    simp [forward, announce, offer, conclude, withdraw, tally, Admission.isQueued, h.isOpen, hroom]

/-- **What the worker takes:** the oldest envelope, if it is idle and there is one. -/
theorem take?_eq_some_iff {f f' : Forwarder} {e : Envelope} :
    f.take? = some (e, f') ↔ f.inDelivery = none ∧ ∃ rest, f.queue = e :: rest ∧
      f' = { f with inDelivery := some e, queue := rest } := by
  unfold take?
  constructor
  · intro h
    split at h
    · rename_i e' rest hidle hqueue
      cases h
      exact ⟨hidle, rest, hqueue, rfl⟩
    · cases h
  · rintro ⟨hidle, rest, hqueue, rfl⟩
    simp [hidle, hqueue]

theorem Balanced.forward {f : Forwarder} (h : f.Balanced) (e : Envelope) :
    (f.forward e).2.Balanced := by
  have houtstanding := h.outstanding_eq
  have henqueued := h.enqueued_eq
  rcases h.forward_cases e with ⟨hroom, heq⟩ | ⟨-, heq⟩ <;> rw [heq]
  · refine ⟨h.isOpen, ?_, ?_, ?_⟩
    · rw [List.length_append]
      exact hroom
    · simp only [inFlight, List.length_append, List.length_singleton] at houtstanding ⊢
      omega
    · show f.stats.enqueued + 1 = f.stats.delivered + f.stats.failed + (f.outstanding + 1)
      omega
  · exact ⟨h.isOpen, h.room, houtstanding, henqueued⟩

theorem Balanced.take? {f f' : Forwarder} (h : f.Balanced) {e : Envelope}
    (htake : f.take? = some (e, f')) : f'.Balanced := by
  obtain ⟨hidle, rest, hqueue, rfl⟩ := take?_eq_some_iff.mp htake
  have hroom := h.room
  have houtstanding := h.outstanding_eq
  rw [inFlight, hidle] at houtstanding
  rw [hqueue, List.length_cons] at hroom houtstanding
  refine ⟨h.isOpen, ?_, ?_, h.enqueued_eq⟩
  · show rest.length ≤ f.config.queueCapacity
    omega
  · show f.outstanding = rest.length + 1
    simpa using houtstanding

/-! What settling a delivery changes. -/

section Settle

variable (f : Forwarder) (wasAccepted : Bool)

@[simp]
theorem queue_settle : (f.settle wasAccepted).queue = f.queue := by
  cases wasAccepted <;> rfl

@[simp]
theorem config_settle : (f.settle wasAccepted).config = f.config := by
  cases wasAccepted <;> rfl

@[simp]
theorem enqueued_settle : (f.settle wasAccepted).stats.enqueued = f.stats.enqueued := by
  cases wasAccepted <;> rfl

@[simp]
theorem droppedFull_settle : (f.settle wasAccepted).stats.droppedFull = f.stats.droppedFull := by
  cases wasAccepted <;> rfl

theorem delivered_settle : (f.settle wasAccepted).stats.delivered =
    f.stats.delivered + if wasAccepted then 1 else 0 := by
  cases wasAccepted <;> rfl

theorem failed_settle : (f.settle wasAccepted).stats.failed =
    f.stats.failed + if !wasAccepted then 1 else 0 := by
  cases wasAccepted <;> rfl

end Settle

/-- However a delivery ends, one envelope less is outstanding. -/
theorem Balanced.settle {f : Forwarder} (h : f.Balanced) (hbusy : f.inDelivery.isSome)
    (wasAccepted : Bool) : (f.settle wasAccepted).Balanced := by
  obtain ⟨e, he⟩ := Option.isSome_iff_exists.mp hbusy
  have houtstanding : f.outstanding = f.queue.length + 1 := by
    rw [h.outstanding_eq, inFlight, he]
    rfl
  have henqueued := h.enqueued_eq
  have hrest : f.outstanding - 1 = f.queue.length := by omega
  cases wasAccepted with
  | true =>
    refine ⟨h.isOpen, h.room, hrest, ?_⟩
    show f.stats.enqueued = f.stats.delivered + 1 + f.stats.failed + (f.outstanding - 1)
    omega
  | false =>
    refine ⟨h.isOpen, h.room, hrest, ?_⟩
    show f.stats.enqueued = f.stats.delivered + (f.stats.failed + 1) + (f.outstanding - 1)
    omega

/-- **The counters agree after any number of rounds of the worker,** whatever the sink does short
of bringing the worker down. -/
theorem Balanced.rounds {σ : Type} {sink : Sink σ} (hsink : ∀ s e, (sink s e).1 ≠ .fatal)
    {f : Forwarder} (h : f.Balanced) (n : Nat) (s : σ) : (f.rounds sink n s).1.Balanced := by
  induction n generalizing f s with
  | zero => exact h
  | succ n ih =>
    unfold Forwarder.rounds Forwarder.step?
    cases htake : f.take? with
    | none => exact h
    | some taken =>
      obtain ⟨e, f'⟩ := taken
      have hbusy : f'.inDelivery.isSome := by
        obtain ⟨-, rest, -, rfl⟩ := take?_eq_some_iff.mp htake
        rfl
      have h' := h.take? htake
      show (Forwarder.rounds sink n (f'.conclusion (sink s e).1) (sink s e).2).1.Balanced
      cases hdelivery : (sink s e).1 with
      | accepted => exact ih (h'.settle hbusy true) _
      | refused cause => exact ih (h'.settle hbusy false) _
      | unanswered => exact ih h' _
      | fatal => exact absurd hdelivery (hsink s e)

/-! ## Schedules -/

/-- How a delivery ends. -/
inductive Ending where
  | accepted
  | refused (cause : PeerError)
  /-- The sink did not answer in time. -/
  | timedOut

/-- Whether the sink has the envelope. -/
def Ending.isAccepted : Ending → Bool
  | .accepted => true
  | .refused _ => false
  | .timedOut => false

/-- **What happens to a forwarder while its worker lives.** -/
inductive Event where
  | forward (e : Envelope)
  /-- The worker hands the oldest envelope to the sink, if it is idle and there is one. -/
  | take
  /-- The delivery that goes on ends, if there is one. -/
  | settle (ending : Ending)

/-- **A forwarder and what has become of it.** -/
structure Journal where
  forwarder : Forwarder
  /-- The envelopes that were forwarded with the answers to their producers, oldest first. -/
  offers : List (Envelope × Bool) := []
  /-- The envelopes that were handed to the sink, oldest first. -/
  handed : List Envelope := []
  /-- The deliveries that are over, with their endings, oldest first. -/
  ended : List (Envelope × Ending) := []

namespace Journal

/-- A forwarder to which nothing has happened. -/
def new (config : ForwarderConfig) : Journal := { forwarder := .new config }

/-- The envelopes whose producers were told that there was room, oldest first. -/
def accepted (j : Journal) : List Envelope := (j.offers.filter Prod.snd).map Prod.fst

/-- One thing happens. -/
def next (j : Journal) : Event → Journal
  | .forward e =>
    { j with
      forwarder := (j.forwarder.forward e).2
      offers := j.offers ++ [(e, (j.forwarder.forward e).1)] }
  | .take =>
    match j.forwarder.take? with
    | none => j
    | some (e, f) => { j with forwarder := f, handed := j.handed ++ [e] }
  | .settle ending =>
    if j.forwarder.inDelivery.isSome then
      { j with
        forwarder := j.forwarder.settle ending.isAccepted
        ended := j.ended ++ j.forwarder.inDelivery.toList.map (·, ending) }
    else j

/-- Many things happen, one after the other. -/
def after (j : Journal) (events : List Event) : Journal := events.foldl next j

/-- **The forwarder has kept what it accepted,** handed or queued, and counted what it was offered
and how deliveries ended. -/
structure Complete (config : ForwarderConfig) (j : Journal) : Prop where
  balanced : j.forwarder.Balanced
  config_eq : j.forwarder.config = config
  accepted_eq : j.accepted = j.handed ++ j.forwarder.queue
  length_accepted : j.accepted.length = j.forwarder.stats.enqueued
  length_offers :
    j.offers.length = j.forwarder.stats.enqueued + j.forwarder.stats.droppedFull
  handed_eq : j.handed = j.ended.map Prod.fst ++ j.forwarder.inDelivery.toList
  delivered_eq : j.forwarder.stats.delivered = j.ended.countP fun x => x.2.isAccepted
  failed_eq : j.forwarder.stats.failed = j.ended.countP fun x => !x.2.isAccepted

theorem complete_new (config : ForwarderConfig) : (new config).Complete config where
  balanced := balanced_new config
  config_eq := rfl
  accepted_eq := rfl
  length_accepted := rfl
  length_offers := rfl
  handed_eq := rfl
  delivered_eq := rfl
  failed_eq := rfl

theorem accepted_append (offers : List (Envelope × Bool)) (e : Envelope) (taken : Bool) :
    ((offers ++ [(e, taken)]).filter Prod.snd).map Prod.fst =
      (offers.filter Prod.snd).map Prod.fst ++ if taken then [e] else [] := by
  cases taken <;> simp

theorem next_forward (j : Journal) (e : Envelope) :
    j.next (.forward e) = { j with
      forwarder := (j.forwarder.forward e).2
      offers := j.offers ++ [(e, (j.forwarder.forward e).1)] } := rfl

section Steps

variable {config : ForwarderConfig} {j : Journal} (h : j.Complete config)
include h

theorem Complete.forward (e : Envelope) : (j.next (.forward e)).Complete config := by
  have hbalanced := h.balanced.forward e
  rw [next_forward]
  rcases h.balanced.forward_cases e with ⟨-, heq⟩ | ⟨-, heq⟩ <;> rw [heq] at hbalanced ⊢
  · -- the envelope joins the end of what was accepted and the end of the queue
    have hkept : ((j.offers ++ [(e, true)]).filter Prod.snd).map Prod.fst = j.accepted ++ [e] :=
      accepted_append ..
    refine ⟨hbalanced, h.config_eq, ?_, ?_, ?_, h.handed_eq, h.delivered_eq, h.failed_eq⟩
    · rw [accepted, hkept, h.accepted_eq]
      exact List.append_assoc ..
    · rw [accepted, hkept, List.length_append, h.length_accepted]
      rfl
    · rw [List.length_append, h.length_offers]
      exact Nat.add_right_comm ..
  · have hkept : ((j.offers ++ [(e, false)]).filter Prod.snd).map Prod.fst = j.accepted := by
      rw [accepted_append]
      exact List.append_nil _
    refine ⟨hbalanced, h.config_eq, ?_, ?_, ?_, h.handed_eq, h.delivered_eq, h.failed_eq⟩
    · rw [accepted, hkept]
      exact h.accepted_eq
    · rw [accepted, hkept]
      exact h.length_accepted
    · rw [List.length_append, h.length_offers]
      rfl

theorem Complete.take : (j.next .take).Complete config := by
  show (match j.forwarder.take? with
    | none => j
    | some (e, f) => { j with forwarder := f, handed := j.handed ++ [e] }).Complete config
  cases htake : j.forwarder.take? with
  | none => exact h
  | some taken =>
    obtain ⟨e, f⟩ := taken
    have hbalanced := h.balanced.take? htake
    obtain ⟨hidle, rest, hqueue, rfl⟩ := take?_eq_some_iff.mp htake
    refine ⟨hbalanced, h.config_eq, ?_, h.length_accepted, h.length_offers, ?_, h.delivered_eq,
      h.failed_eq⟩
    · -- the envelope leaves the front of the queue and joins the end of what was handed
      show j.accepted = (j.handed ++ [e]) ++ rest
      rw [h.accepted_eq, hqueue, List.append_assoc]
      rfl
    · have hover : j.handed = j.ended.map Prod.fst := by
        rw [h.handed_eq, hidle]
        exact List.append_nil _
      exact congrArg (· ++ [e]) hover

theorem Complete.settle (ending : Ending) : (j.next (.settle ending)).Complete config := by
  show (if j.forwarder.inDelivery.isSome then
    { j with
      forwarder := j.forwarder.settle ending.isAccepted
      ended := j.ended ++ j.forwarder.inDelivery.toList.map (·, ending) } else j).Complete config
  split
  · rename_i hbusy
    obtain ⟨e, he⟩ := Option.isSome_iff_exists.mp hbusy
    have hbalanced := h.balanced.settle hbusy ending.isAccepted
    -- the envelope in delivery becomes the last one whose delivery is over
    have hhanded : j.handed = (j.ended ++ [(e, ending)]).map Prod.fst ++ [] := by
      rw [h.handed_eq, he, List.map_append, List.append_nil]
      rfl
    rw [he, Option.toList_some, List.map_singleton]
    refine ⟨hbalanced, ?_, ?_, ?_, ?_, ?_, ?_, ?_⟩
    · rw [config_settle, h.config_eq]
    · rw [queue_settle]
      exact h.accepted_eq
    · rw [enqueued_settle]
      exact h.length_accepted
    · rw [enqueued_settle, droppedFull_settle]
      exact h.length_offers
    · exact hhanded
    · rw [delivered_settle, List.countP_append, List.countP_singleton, h.delivered_eq]
    · rw [failed_settle, List.countP_append, List.countP_singleton, h.failed_eq]
  · exact h

end Steps

/-- **Whatever happens next,** the forwarder keeps what it has accepted. -/
theorem Complete.next {config : ForwarderConfig} {j : Journal} (h : j.Complete config)
    (event : Event) : (j.next event).Complete config := by
  cases event with
  | forward e => exact h.forward e
  | take => exact h.take
  | settle ending => exact h.settle ending

theorem Complete.after {config : ForwarderConfig} {j : Journal} (h : j.Complete config)
    (events : List Event) : (j.after events).Complete config := by
  induction events generalizing j with
  | nil => exact h
  | cons event events ih => exact ih (h.next event)

end Journal

/-- **Conservation and order.**  However producers, worker and sink interleave, the queue never
holds more than its capacity; every envelope that was queued is delivered, failed, still queued or
in delivery, and `pending` counts the last two; every call was counted, as queued or as dropped,
and answered accordingly; and the envelopes handed to the sink so far are the first of those that
were accepted, each once and in the order of the calls, for every driver and over all drivers.  The
deliveries of all of them have ended, but for the one that goes on, and those are counted as
delivered that the sink accepted, and the others as failed. -/
theorem conservation (config : ForwarderConfig) (events : List Event) :
    let j := (Journal.new config).after events
    let f := j.forwarder
    f.queue.length ≤ config.queueCapacity ∧
    f.stats.enqueued = f.stats.delivered + f.stats.failed + f.queue.length + f.inFlight ∧
    f.pending = f.queue.length + f.inFlight ∧
    j.offers.length = f.stats.enqueued + f.stats.droppedFull ∧
    j.accepted.length = f.stats.enqueued ∧
    j.accepted = j.handed ++ f.queue ∧
    (∀ driverId, (j.handed.filter fun e => e.driverId = driverId) <+:
      j.accepted.filter fun e => e.driverId = driverId) ∧
    j.handed = j.ended.map Prod.fst ++ f.inDelivery.toList ∧
    f.stats.delivered = j.ended.countP (fun x => x.2.isAccepted) ∧
    f.stats.failed = j.ended.countP (fun x => !x.2.isAccepted) ∧
    ∀ e, (f.forward e).1 = decide (f.queue.length < config.queueCapacity) ∧
      (f.forward e).2.queue = f.queue ++ if (f.forward e).1 then [e] else [] := by
  intro j f
  have h : j.Complete config := (Journal.complete_new config).after events
  have hcapacity : f.config.queueCapacity = config.queueCapacity :=
    congrArg ForwarderConfig.queueCapacity h.config_eq
  have hroom := h.balanced.room
  have houtstanding := h.balanced.outstanding_eq
  have henqueued := h.balanced.enqueued_eq
  refine ⟨hcapacity ▸ hroom, ?_, houtstanding, h.length_offers, h.length_accepted, h.accepted_eq,
    ?_, h.handed_eq, h.delivered_eq, h.failed_eq, ?_⟩
  · rw [henqueued, houtstanding, Nat.add_assoc _ f.queue.length]
  · intro driverId
    rw [h.accepted_eq, List.filter_append]
    exact List.prefix_append _ _
  · intro e
    rcases h.balanced.forward_cases e with ⟨hlt, heq⟩ | ⟨hle, heq⟩
    · rw [heq]
      exact ⟨(decide_eq_true (hcapacity ▸ hlt)).symm, rfl⟩
    · rw [heq]
      exact ⟨(decide_eq_false (Nat.not_lt.mpr (hcapacity ▸ hle))).symm,
        (List.append_nil _).symm⟩

end Forwarder
end Fleet
