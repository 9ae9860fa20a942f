import Fleet.Proofs.Forward.Outstanding
import Fleet.Proofs.Service.Independence
import Fleet.Service.Bench
import Mathlib.Data.List.Induction

/-!
# Waiting for the queue to empty

A drain reads the counter of outstanding envelopes, then the clock, and sleeps if it has to wait.
Producers, the worker and the clock go on between any two of its steps, and how long a sleep lasts
is up to the context.  What a drain returns is what the counter showed at its last look
(`exists_look`), and `Traffic.Exact` says what that counts; `drain_sound` puts it together for every
schedule.  The one thing that can go wrong is the deadline: where the clock cannot name it, there is
no drain.
-/

namespace Fleet

/-- **How far a drain has come.** -/
inductive Drain.Stage where
  /-- It is about to read the counter. -/
  | looking
  /-- It has read the counter and is about to read the clock. -/
  | looked (pending : Nat)
  | asleep
  | returned (left : Nat)

/-- **A drain in progress,** among the calls of a forwarder and on a clock that can show any moment
a duration can name. -/
structure Drain where
  traffic : Forwarder.Traffic
  now : Duration
  deadline : Duration
  stage : Drain.Stage := .looking

namespace Drain

/-- **What happens while a drain is in progress.** -/
inductive Event where
  /-- A producer or the worker takes a step. -/
  | step (s : Forwarder.Step)
  /-- The clock comes to a moment, unless it is past. -/
  | pass (moment : Duration)
  /-- The drain takes its next step.  If it sleeps, it is woken. -/
  | run

/-- The step of the forwarder that an event is. -/
def Event.step? : Event → Option Forwarder.Step
  | .step s => some s
  | _ => none

/-- A drain begins; none if the clock cannot name its deadline. -/
def start? (traffic : Forwarder.Traffic) (now timeout : Duration) : Option Drain :=
  (now.add? timeout).map fun deadline => { traffic, now, deadline }

/-- What a drain that has read the counter returns now; none if it has to wait, or has not read
it. -/
def returns? (d : Drain) : Option Nat :=
  match d.stage with
  | .looked pending =>
    if pending = 0 ∨ d.deadline.nanos ≤ d.now.nanos then some pending else none
  | _ => none

/-- The drain takes its next step. -/
def run (d : Drain) : Drain :=
  match d.stage with
  | .looking => { d with stage := .looked d.traffic.forwarder.pending }
  | .looked _ => { d with stage := d.returns?.elim .asleep .returned }
  | .asleep => { d with stage := .looking }
  | .returned _ => d

/-- One event happens. -/
def next (d : Drain) : Event → Drain
  | .step s => { d with traffic := d.traffic.next s }
  | .pass moment => if d.now.nanos ≤ moment.nanos then { d with now := moment } else d
  | .run => d.run

/-- Many events happen, one after the other. -/
def after (d : Drain) (events : List Event) : Drain := events.foldl next d

theorem after_append (d : Drain) (earlier later : List Event) :
    d.after (earlier ++ later) = (d.after earlier).after later :=
  List.foldl_append

theorem of_start? {traffic : Forwarder.Traffic} {now timeout : Duration} {d : Drain}
    (h : start? traffic now timeout = some d) :
    d.traffic = traffic ∧ d.now = now ∧ now.add? timeout = some d.deadline ∧
      d.stage = .looking := by
  obtain ⟨deadline, hdeadline, rfl⟩ := Option.map_eq_some_iff.mp h
  exact ⟨rfl, rfl, hdeadline, rfl⟩

/-! ## What the events leave alone -/

section Run

variable (d : Drain)

theorem run_traffic : d.run.traffic = d.traffic := by
  unfold run
  split <;> rfl

theorem run_now : d.run.now = d.now := by
  unfold run
  split <;> rfl

theorem run_deadline : d.run.deadline = d.deadline := by
  unfold run
  split <;> rfl

end Run

/-- **The forwarder does not notice a drain:** it is where its own steps have brought it. -/
theorem traffic_after (d : Drain) (events : List Event) :
    (d.after events).traffic = d.traffic.after (events.filterMap Event.step?) := by
  induction events generalizing d with
  | nil => rfl
  | cons e events ih =>
    refine (ih (d.next e)).trans ?_
    cases e with
    | step s => rfl
    | pass moment =>
      simp only [next]
      split <;> rfl
    | run => exact congrArg (Forwarder.Traffic.after · _) d.run_traffic

theorem deadline_after (d : Drain) (events : List Event) :
    (d.after events).deadline = d.deadline := by
  induction events generalizing d with
  | nil => rfl
  | cons e events ih =>
    refine (ih (d.next e)).trans ?_
    cases e with
    | step s => rfl
    | pass moment =>
      simp only [next]
      split <;> rfl
    | run => exact d.run_deadline

/-- **What a drain knows is what the counter showed at its last look.** -/
theorem exists_look {d : Drain} (hstart : d.stage = .looking) {events : List Event} {pending : Nat}
    (h : (d.after events).stage = .looked pending) :
    ∃ earlier between, events = earlier ++ .run :: between ∧ .run ∉ between ∧
      (d.after earlier).traffic.forwarder.pending = pending := by
  -- the events are read from the last one backwards, up to the look
  induction events using List.reverseRecOn with
  | nil => exact nomatch hstart.symm.trans h
  | append_singleton events e ih =>
    rw [after_append] at h
    have hbefore (hstage : (d.after events).stage = .looked pending) (hidle : e ≠ .run) :
        ∃ earlier between, events ++ [e] = earlier ++ .run :: between ∧ .run ∉ between ∧
          (d.after earlier).traffic.forwarder.pending = pending := by
      obtain ⟨earlier, between, rfl, hbetween, hpending⟩ := ih hstage
      exact ⟨earlier, between ++ [e], by simp, by simp [hbetween, hidle.symm], hpending⟩
    cases e with
    | step s => exact hbefore h nofun
    | pass moment =>
      refine hbefore ?_ nofun
      simp only [after, List.foldl_cons, List.foldl_nil, next] at h
      split at h <;> exact h
    | run =>
      change (d.after events).run.stage = .looked pending at h
      unfold run at h
      split at h
      · cases h
        exact ⟨events, [], rfl, by simp, rfl⟩
      · rename_i looked hlooked
        cases hreturns : (d.after events).returns? <;> rw [hreturns] at h <;> cases h
      · cases h
      · rename_i left hreturned
        exact nomatch hreturned.symm.trans h

/-- A drain that returns has read the counter, and the clock if something is left. -/
theorem of_returns? {d : Drain} {left : Nat} (h : d.returns? = some left) :
    d.stage = .looked left ∧ (left ≠ 0 → d.deadline.nanos ≤ d.now.nanos) := by
  unfold returns? at h
  split at h
  · rename_i pending hstage
    split at h
    · rename_i hdone
      cases h
      exact ⟨hstage, hdone.resolve_left⟩
    · cases h
  · cases h

/-- **A drain that is past its deadline returns** as soon as it has read the counter again. -/
theorem exists_returned {d : Drain} (hdeadline : d.deadline.nanos ≤ d.now.nanos) :
    ∃ left, (d.after [.run, .run, .run]).stage = .returned left := by
  have hlooked {d : Drain} {pending : Nat} (hstage : d.stage = .looked pending)
      (hdeadline : d.deadline.nanos ≤ d.now.nanos) : d.run.stage = .returned pending := by
    simp [run, returns?, hstage, hdeadline]
  have hreturned {d : Drain} {left : Nat} (hstage : d.stage = .returned left) : d.run = d := by
    simp [run, hstage]
  show ∃ left, d.run.run.run.stage = .returned left
  cases hstage : d.stage with
  | looking =>
    have hfirst : d.run.stage = .looked d.traffic.forwarder.pending := by simp [run, hstage]
    have hsecond := hlooked hfirst (by rwa [run_deadline, run_now])
    exact ⟨_, (congrArg Drain.stage (hreturned hsecond)).trans hsecond⟩
  | looked pending =>
    have hfirst := hlooked hstage hdeadline
    exact ⟨_, by rw [hreturned hfirst, hreturned hfirst, hfirst]⟩
  | asleep =>
    have hfirst : d.run.stage = .looking := by simp [run, hstage]
    have hsecond : d.run.run.stage = .looked d.run.traffic.forwarder.pending := by
      rw [run, hfirst]
    exact ⟨_, hlooked hsecond (by rwa [run_deadline, run_deadline, run_now, run_now])⟩
  | returned left =>
    exact ⟨left, by rw [hreturned hstage, hreturned hstage, hreturned hstage, hstage]⟩

end Drain

/-! ## What the steps of others do to the counter -/

namespace Forwarder.Traffic

/-- **Only a call raises the counter.** -/
theorem outstanding_next_le (t : Traffic) {s : Step} (h : ∀ e, s ≠ .call e) :
    (t.next s).forwarder.outstanding ≤ t.forwarder.outstanding := by
  cases s with
  | call e => exact absurd rfl (h e)
  | act i =>
    show (t.act i).forwarder.outstanding ≤ _
    unfold act
    split
    · simp only [offer]
      split
      · exact Nat.le_refl _
      · split <;> exact Nat.le_refl _
    · rename_i admission _
      split
      · cases admission <;> exact Nat.le_refl _
      · exact Nat.sub_le _ _
    · rename_i admission _
      cases admission <;> exact Nat.le_refl _
    · exact Nat.le_refl _
  | take =>
    show t.take.forwarder.outstanding ≤ _
    unfold take
    split
    · exact Nat.le_refl _
    · rename_i htake
      obtain ⟨-, rest, -, rfl⟩ := take?_eq_some_iff.mp htake
      exact Nat.le_refl _
  | count wasAccepted =>
    show (t.count wasAccepted).forwarder.outstanding ≤ _
    unfold count
    split
    · cases wasAccepted <;> exact Nat.le_refl _
    · exact Nat.le_refl _
  | release =>
    show t.release.forwarder.outstanding ≤ _
    unfold release
    split
    · exact Nat.sub_le _ _
    · exact Nat.le_refl _
  | stop => exact Nat.le_refl _

theorem outstanding_after_le (t : Traffic) {steps : List Step} (h : ∀ e, .call e ∉ steps) :
    (t.after steps).forwarder.outstanding ≤ t.forwarder.outstanding := by
  induction steps generalizing t with
  | nil => exact Nat.le_refl _
  | cons s steps ih =>
    refine Nat.le_trans (ih (t.next s) fun e he => h e (List.mem_cons_of_mem s he)) ?_
    exact t.outstanding_next_le fun e he => h e (he ▸ List.mem_cons_self)

/-- The worker leaves the calls alone, and does not go by itself. -/
theorem of_next_isWork (t : Traffic) {s : Step} (h : s.isWork) :
    (t.next s).calls = t.calls ∧ (t.next s).forwarder.isClosed = t.forwarder.isClosed := by
  cases s with
  | take =>
    show t.take.calls = _ ∧ t.take.forwarder.isClosed = _
    unfold take
    split
    · exact ⟨rfl, rfl⟩
    · rename_i htake
      obtain ⟨-, rest, -, rfl⟩ := take?_eq_some_iff.mp htake
      exact ⟨rfl, rfl⟩
  | count wasAccepted =>
    show (t.count wasAccepted).calls = _ ∧ (t.count wasAccepted).forwarder.isClosed = _
    unfold count
    split
    · cases wasAccepted <;> exact ⟨rfl, rfl⟩
    · exact ⟨rfl, rfl⟩
  | release =>
    show t.release.calls = _ ∧ t.release.forwarder.isClosed = _
    unfold release
    split <;> exact ⟨rfl, rfl⟩
  | _ => cases h

theorem of_after_isWork (t : Traffic) {steps : List Step} (h : ∀ s ∈ steps, s.isWork) :
    (t.after steps).calls = t.calls ∧
      (t.after steps).forwarder.isClosed = t.forwarder.isClosed := by
  induction steps generalizing t with
  | nil => exact ⟨rfl, rfl⟩
  | cons s steps ih =>
    obtain ⟨hcalls, hclosed⟩ := ih (t.next s) fun s' hs' => h s' (List.mem_cons_of_mem s hs')
    obtain ⟨hcalls', hclosed'⟩ := t.of_next_isWork (h s List.mem_cons_self)
    exact ⟨hcalls.trans hcalls', hclosed.trans hclosed'⟩

/-- **Rounds of the worker are steps of it,** whatever the sink answers. -/
theorem exists_after_rounds {σ : Type} (sink : Sink σ) (n : Nat) (t : Traffic) (s : σ) :
    ∃ steps, (t.after steps).forwarder = (t.forwarder.rounds sink n s).1 := by
  induction n generalizing t s with
  | zero => exact ⟨[], rfl⟩
  | succ n ih =>
    unfold Forwarder.rounds Forwarder.step?
    cases htake : t.forwarder.take? with
    | none => exact ⟨[], rfl⟩
    | some taken =>
      obtain ⟨e, f⟩ := taken
      have hround : ∃ steps, (t.after steps).forwarder = f.conclusion (sink s e).1 := by
        cases (sink s e).1 with
        | accepted => exact ⟨_, forwarder_after_turn htake true⟩
        | refused cause => exact ⟨_, forwarder_after_turn htake false⟩
        | unanswered => exact ⟨[.take], by simp [after, next, take, htake, conclusion]⟩
        | fatal => exact ⟨[.take, .stop], by simp [after, next, take, stop, htake, conclusion]⟩
      obtain ⟨steps, hsteps⟩ := hround
      obtain ⟨later, hlater⟩ := ih (t.after steps) (sink s e).2
      refine ⟨steps ++ later, ?_⟩
      rw [after, List.foldl_append]
      exact hlater.trans (congrArg (fun f => (Forwarder.rounds sink n f _).1) hsteps)

end Forwarder.Traffic

/-! ## The drain of the bench -/

namespace Drain

/-- When the background tasks run, the forwarder is at the end of its worker's rounds. -/
theorem forwarder_settle (b : Bench) :
    b.settle.service.forwarder =
      (b.service.forwarder.work (BenchSink.deliver b.clock) b.sink).1 := by
  have hsweeper (b : Bench) : b.runSweeper.service.forwarder = b.service.forwarder := by
    unfold Bench.runSweeper
    split
    · rfl
    · rename_i w _
      show (w.poll b.clock b.service).2.forwarder = _
      unfold Sweeper.poll
      split <;> rfl
  exact hsweeper b.runWorker

theorem clock_settle (b : Bench) : b.settle.clock = b.clock := by
  show b.runWorker.runSweeper.clock = _
  unfold Bench.runSweeper
  split <;> rfl

/-- The steps of a forwarder alone. -/
theorem after_steps (d : Drain) (steps : List Forwarder.Step) :
    d.after (steps.map .step) = { d with traffic := d.traffic.after steps } := by
  induction steps generalizing d with
  | nil => rfl
  | cons s steps ih => exact ih (d.next (.step s))

/-- **One round of a drain that has to wait:** it looks, it sleeps while the worker works, and it is
woken when the clock has moved on. -/
theorem after_round {d : Drain} (hstage : d.stage = .looking) (hwait : d.run.returns? = none)
    (steps : List Forwarder.Step) {moment : Duration} (hmoment : d.now.nanos ≤ moment.nanos) :
    d.after ([.run, .run] ++ steps.map .step ++ [.pass moment, .run]) =
      { d with traffic := d.traffic.after steps, now := moment } := by
  have hlooked : d.run = { d with stage := .looked d.traffic.forwarder.pending } := by
    simp [run, hstage]
  have hasleep : d.after [.run, .run] = { d with stage := .asleep } := by
    show d.run.run = _
    rw [hlooked] at hwait ⊢
    simp [run, hwait]
  rw [after_append, after_append, hasleep, after_steps]
  simp [after, next, hmoment, run, ← hstage]

/-- A look of the bench is a look of the drain. -/
theorem returns?_run {d : Drain} {f : Forwarder} {clock : Clock} (hstage : d.stage = .looking)
    (hforwarder : d.traffic.forwarder = f) (hnow : d.now = clock.now) :
    d.run.returns? = f.drained? clock d.deadline := by
  simp [run, returns?, hstage, Forwarder.drained?, hforwarder, hnow]

/-- **The looks of a drain on the bench are a schedule,** if there are enough of them for the clock
to reach the deadline. -/
theorem exists_schedule {b : Bench} {d : Drain}
    (hforwarder : d.traffic.forwarder = b.service.forwarder) (hnow : d.now = b.clock.now)
    (hstage : d.stage = .looking) (hlast : d.deadline.nanos ≤ Clock.last) {n : Nat}
    (hlooks : d.deadline.nanos ≤ b.clock.elapsed + n * Forwarder.drainPoll.nanos) :
    let looked := b.drainRounds d.deadline (n + 1)
    ∃ events, (d.after events).returns? = some looked.1 ∧
      (d.after events).now = looked.2.clock.now := by
  induction n generalizing b d with
  | zero =>
    have hdone : b.service.forwarder.drained? b.clock d.deadline =
        some b.service.forwarder.pending := by
      refine if_pos (Or.inr ?_)
      rwa [Nat.zero_mul] at hlooks
    refine ⟨[.run], ?_⟩
    simp only [Bench.drainRounds, hdone]
    exact ⟨(returns?_run hstage hforwarder hnow).trans hdone, d.run_now.trans hnow⟩
  | succ n ih =>
    rw [Bench.drainRounds]
    cases hlook : b.service.forwarder.drained? b.clock d.deadline with
    | some left =>
      exact ⟨[.run], (returns?_run hstage hforwarder hnow).trans hlook, d.run_now.trans hnow⟩
    | none =>
      have hwait := (returns?_run hstage hforwarder hnow).trans hlook
      obtain ⟨steps, hsteps⟩ := d.traffic.exists_after_rounds (BenchSink.deliver b.clock)
        b.service.forwarder.queue.length b.sink
      let clock := b.settle.clock.advance Forwarder.drainPoll
      have hmoved :
          clock.elapsed = min (b.clock.elapsed + Forwarder.drainPoll.nanos) Clock.last := by
        show min (b.settle.clock.elapsed + _) _ = _
        rw [clock_settle]
      have hclock := b.clock.bounded
      have hmoment : d.now.nanos ≤ clock.now.nanos := by
        rw [hnow]
        show b.clock.elapsed ≤ clock.elapsed
        rw [hmoved]
        unfold Clock.last
        omega
      let d' : Drain := { d with traffic := d.traffic.after steps, now := clock.now }
      have hround : d.after ([.run, .run] ++ steps.map .step ++ [.pass clock.now, .run]) = d' :=
        after_round hstage hwait steps hmoment
      have hforwarder' : d'.traffic.forwarder = b.settle.service.forwarder := by
        rw [forwarder_settle]
        show (d.traffic.after steps).forwarder = _
        rw [hsteps, hforwarder]
        rfl
      have hlooks' : d'.deadline.nanos ≤ clock.elapsed + n * Forwarder.drainPoll.nanos := by
        show d.deadline.nanos ≤ _
        rw [hmoved]
        rw [Nat.succ_mul] at hlooks
        omega
      obtain ⟨events, hreturns, hends⟩ :=
        ih (b := { b.settle with clock }) (d := d') hforwarder' rfl hstage hlast hlooks'
      refine ⟨[.run, .run] ++ steps.map .step ++ [.pass clock.now, .run] ++ events, ?_⟩
      rw [after_append, hround]
      exact ⟨hreturns, hends⟩

/-! ## What a drain returns -/

section Looked

variable {d : Drain} {earlier between : List Event}

/-- Between two moments the forwarder makes the steps that come between them. -/
theorem traffic_since_look :
    (d.after (earlier ++ .run :: between)).traffic =
      (d.after earlier).traffic.after (between.filterMap Event.step?) := by
  rw [after_append, traffic_after, List.filterMap_cons]
  rfl

/-- No more is outstanding than at the look if no call begins. -/
theorem pending_le_of_no_call (hcalls : ∀ e, .step (.call e) ∉ between) :
    (d.after (earlier ++ .run :: between)).traffic.forwarder.pending ≤
      (d.after earlier).traffic.forwarder.pending := by
  rw [traffic_since_look]
  refine Forwarder.Traffic.outstanding_after_le _ fun e he => ?_
  obtain ⟨event, hevent, hstep⟩ := List.mem_filterMap.mp he
  cases event <;> cases hstep
  exact hcalls e hevent

end Looked

/-- While only the worker and the clock move, no call is under way and nothing is left behind. -/
theorem only_worker {d : Drain} (hexact : ∀ events, (d.after events).traffic.Exact)
    (hunderway : d.traffic.underway = 0) (hopen : d.traffic.forwarder.isClosed = false)
    {events : List Event} (hwork : ∀ s ∈ events.filterMap Event.step?, s.isWork) :
    (d.after events).traffic.underway = 0 ∧ (d.after events).traffic.abandoned = 0 := by
  have htraffic := traffic_after d events
  obtain ⟨hsame, hclosed⟩ := d.traffic.of_after_isWork hwork
  refine ⟨?_, (hexact events).kept (by rw [htraffic, hclosed, hopen])⟩
  rw [htraffic, Forwarder.Traffic.underway, hsame]
  exact hunderway

/-- The drain of the bench begins where the clock can name the deadline. -/
theorem drain_of_add? {b : Bench} {timeout deadline : Duration}
    (hsum : b.clock.now.add? timeout = some deadline) :
    b.drain timeout = some ((b.drainRounds deadline (b.drainLooks deadline)).1,
      (b.drainRounds deadline (b.drainLooks deadline)).2.settle) := by
  rw [Bench.drain, Forwarder.drainDeadline?, hsum]
  rfl

/-- The bench takes enough looks for the clock to reach the deadline. -/
theorem le_drainLooks (b : Bench) (deadline : Duration) :
    ∃ n, b.drainLooks deadline = n + 1 ∧
      deadline.nanos ≤ b.clock.elapsed + n * Forwarder.drainPoll.nanos := by
  refine ⟨(deadline.nanos - b.clock.elapsed) / Forwarder.drainPoll.nanos + 1, rfl, ?_⟩
  have hpoll : 0 < Forwarder.drainPoll.nanos := by decide +kernel
  have hdiv := Nat.div_add_mod' (deadline.nanos - b.clock.elapsed) Forwarder.drainPoll.nanos
  have hmod := Nat.mod_lt (deadline.nanos - b.clock.elapsed) hpoll
  rw [Nat.succ_mul]
  omega

end Drain

open Drain in
/-- **A drain that begins is sound.**  Whatever has happened to the forwarder, whatever the clock
shows and however long the timeout is, and whatever producers, worker and clock do in the meantime:

* The drain begins unless the sum of clock and timeout is longer than any duration, and its deadline
  is that sum.
* It returns what the counter showed at its last look: the calls under way, what is queued and in
  delivery, and what a worker that is gone left behind.  If that is zero, nothing is queued and
  nothing in delivery, and if it is not, the clock has come to the deadline.
* That is the number when it returns if the forwarder makes no step after the look, and no more are
  outstanding then if no call begins.
* If no call is under way and the worker lives when the drain begins, and only the worker and the
  clock move, it is the number of envelopes queued or in delivery.
* Once the clock has come to the deadline, three steps of the drain end it.
* A drain on the bench is one of these, if the clock of the bench can come to the deadline. -/
theorem drain_sound (config : ForwarderConfig) (history : List Forwarder.Step)
    (start timeout : Duration) :
    let t := (Forwarder.Traffic.new config).after history
    (start? t start timeout = none ↔ 2 ^ 64 * nanosPerSecond ≤ start.nanos + timeout.nanos) ∧
    ∀ d, start? t start timeout = some d →
      d.deadline.nanos = start.nanos + timeout.nanos ∧
      (∀ events left, (d.after events).returns? = some left →
        ∃ earlier between, events = earlier ++ .run :: between ∧
          let seen := (d.after earlier).traffic
          let f := seen.forwarder
          left = seen.underway + (f.queue.length + f.inFlight) + seen.abandoned ∧
          (left = 0 → f.queue = [] ∧ f.inDelivery = none) ∧
          (left ≠ 0 → start.nanos + timeout.nanos ≤ (d.after events).now.nanos) ∧
          (between.filterMap Event.step? = [] → (d.after events).traffic = seen) ∧
          ((∀ e, .step (.call e) ∉ between) →
            (d.after events).traffic.forwarder.pending ≤ left) ∧
          (t.underway = 0 → t.forwarder.isClosed = false →
            (∀ s ∈ events.filterMap Event.step?, s.isWork) →
              left = f.queue.length + f.inFlight)) ∧
      (∀ events, start.nanos + timeout.nanos ≤ (d.after events).now.nanos →
        ∃ left, (d.after (events ++ [.run, .run, .run])).stage = .returned left) ∧
      ∀ b : Bench, b.service.forwarder = t.forwarder → b.clock.now = start →
        start.nanos + timeout.nanos ≤ Clock.last → ∃ left b', b.drain timeout = some (left, b') ∧
          ∃ events, (d.after events).returns? = some left ∧
            (d.after events).now = b'.clock.now := by
  intro t
  refine ⟨Option.map_eq_none_iff.trans Duration.add?_eq_none_iff, fun d hd => ?_⟩
  obtain ⟨htraffic, hnow, hsum, hstage⟩ := of_start? hd
  have hdeadline := Duration.nanos_of_add? hsum
  have hexact (events : List Event) : (d.after events).traffic.Exact := by
    rw [traffic_after, htraffic]
    exact ((Forwarder.Traffic.exact_new config).after history).after _
  refine ⟨hdeadline, fun events left hreturns => ?_, fun events hcome => ?_,
    fun b hforwarder hclock hlast => ?_⟩
  · obtain ⟨hlooked, hcome⟩ := of_returns? hreturns
    obtain ⟨earlier, between, rfl, -, rfl⟩ := exists_look hstage hlooked
    have hseen := (hexact earlier).outstanding_eq
    refine ⟨earlier, between, rfl, hseen, (hexact earlier).empty_of_zero, fun hleft => ?_,
      fun hquiet => ?_, pending_le_of_no_call, fun hunderway hopen hwork => ?_⟩
    · rw [← hdeadline, ← deadline_after d]
      exact hcome hleft
    · rw [traffic_since_look, hquiet]
      rfl
    · rw [List.filterMap_append] at hwork
      obtain ⟨hnobody, hkept⟩ := only_worker hexact (htraffic ▸ hunderway) (htraffic ▸ hopen)
        fun s hs => hwork s (List.mem_append_left _ hs)
      rw [hnobody, hkept, Nat.zero_add] at hseen
      exact hseen
  · rw [after_append]
    refine exists_returned ?_
    rw [deadline_after, hdeadline]
    exact hcome
  · subst hclock
    obtain ⟨n, hn, hlooks⟩ := le_drainLooks b d.deadline
    obtain ⟨events, hreturns, hends⟩ :=
      exists_schedule (by rw [htraffic, hforwarder]) hnow hstage (by rwa [hdeadline]) hlooks
    rw [← hn] at hreturns hends
    refine ⟨_, _, drain_of_add? hsum, events, hreturns, hends.trans ?_⟩
    exact congrArg Clock.now (clock_settle _).symm

/-- A drain gives up at its deadline with an envelope in delivery, and one that is woken after the
delivery finds nothing left. -/
theorem drain_sound_of_one_delivery :
    let e : Envelope := ⟨"d", [], 0⟩
    let t := (Forwarder.Traffic.new {}).after [.call e, .act 0, .act 0]
    let d : Drain := { traffic := t, now := .ofMillis 1, deadline := .ofMillis 31 }
    let waiting : List Drain.Event := [.run, .run, .step .take, .pass (.ofMillis 31), .run]
    let served : List Drain.Event := [.run, .run, .step .take, .step (.count true), .step .release,
      .run]
    Drain.start? t (.ofMillis 1) (.ofMillis 30) = some d ∧
      (d.after (waiting ++ [.run])).returns? = some 1 ∧
      d.deadline.nanos ≤ (d.after (waiting ++ [.run])).now.nanos ∧
      (∃ left, (d.after (waiting ++ [.run, .run, .run])).stage = .returned left) ∧
      (d.after (served ++ [.run])).returns? = some 0 ∧
      ∃ earlier between, served ++ [.run] = earlier ++ .run :: between ∧
        (d.after earlier).traffic.forwarder.queue = [] ∧
        (d.after earlier).traffic.forwarder.inDelivery = none := by
  intro e t d waiting served
  have hstart : Drain.start? t (.ofMillis 1) (.ofMillis 30) = some d := rfl
  have hleft : (d.after (waiting ++ [.run])).returns? = some 1 := by decide +kernel
  have hnothing : (d.after (served ++ [.run])).returns? = some 0 := by decide +kernel
  have hpast : d.deadline.nanos ≤ (d.after waiting).now.nanos := by decide +kernel
  obtain ⟨-, hdrain⟩ := drain_sound {} [.call e, .act 0, .act 0] (.ofMillis 1) (.ofMillis 30)
  obtain ⟨hdeadline, hreturns, hends, -⟩ := hdrain d hstart
  rw [← hdeadline] at hreturns hends
  obtain ⟨-, -, -, -, -, hcome, -⟩ := hreturns _ _ hleft
  obtain ⟨earlier, between, hserved, -, hempty, -⟩ := hreturns _ _ hnothing
  exact ⟨hstart, hleft, hcome Nat.one_ne_zero, hends _ hpast, hnothing, earlier, between, hserved,
    hempty rfl⟩

/-- **The longest wait has no deadline once the clock has moved.**  On a bench with nothing pending
the shortest wait is over at once, and the longest one does not begin. -/
theorem longest_drain_has_no_deadline :
    ∃ b, Bench.new {} false = .ok b ∧
      let b' := (b.run (.advance (.ofMillis 1))).2
      b'.service.forwarder.pending = 0 ∧
      (b'.drain .zero).map Prod.fst = some 0 ∧
      (b'.run (.drain .longest)).1 = .noDeadline := by
  have hvalid : Config.fault? {} = none := by decide +kernel
  let config : Config := {}
  have hnew : Bench.new config false = .ok {
      service := {
        requestTimeout := config.requestTimeout
        index := .new config.index
        forwarder := .new config.forwarder }
      sink := { depot := .inMemory config.trackPolicy, feedsDepot := false } } := by
    rw [Bench.new, Deployment.new_of_fault? hvalid]
    rfl
  refine ⟨_, hnew, rfl, by decide +kernel, ?_⟩
  simp only [Bench.run, Bench.drain, Forwarder.drainDeadline?]
  rw [Duration.add?_eq_none_iff.mpr (by decide +kernel)]
  rfl

end Fleet
