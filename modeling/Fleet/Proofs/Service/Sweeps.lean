import Fleet.Proofs.Index.Staleness
import Fleet.Service.Sweeper

/-!
# A sweeper keeps its schedule

A sweeper's task under any schedule: the clock is advanced by steps of any size, the index is
changed by others, the task is given a chance to run now and then, and at some moment its handle is
told to stop or dropped.  `Patrol` is that system with a record of the passes that were made.
`OnTime` is what every event keeps: a task that sleeps wakes one cleanup interval after it went to
sleep, which it did when it was armed or at its last pass; and every pass took away what was too
old and nothing else.  `sweeps_on_schedule` puts together what follows for every run.
-/

namespace Fleet

/-! ## The task under a schedule -/

namespace Patrol

/-- **A pass of a sweeper:** the time at which it was made, and the index before and after it. -/
structure Pass where
  clock : Clock
  before : Index
  after : Index

/-- The drivers that a pass removed. -/
def Pass.removed (q : Pass) : List String :=
  q.before.drivers.keys.filter fun d => (q.after.lookup d).isNone

/-- Whether a position is not too old for a pass. -/
def Pass.spares (q : Pass) (limit : Duration) (x : Position) : Bool :=
  x.isWithin q.clock.timestamp limit

/-- What some passes leave of the position of a driver about whom nothing else happens. -/
def spared (limit : Duration) (made : List Pass) (found : Option Position) : Option Position :=
  found.filter fun x => made.all (·.spares limit x)

@[simp]
theorem spared_nil (limit : Duration) (found : Option Position) :
    spared limit [] found = found := by
  cases found <;> rfl

theorem spared_append (limit : Duration) (made later : List Pass) (found : Option Position) :
    spared limit (made ++ later) found = spared limit later (spared limit made found) := by
  simp only [spared, Option.filter_filter, List.all_append]

end Patrol

/-- **A sweeper's task and its surroundings.** -/
structure Patrol where
  clock : Clock
  service : DriverService
  /-- The sweeper, from the moment at which its task runs for the first time. -/
  sweeper : Option Sweeper := none
  /-- When the task ran for the first time and went to sleep. -/
  armedAt : Option Clock := none
  /-- Whether the handle was told to stop, or dropped. -/
  isCancelled : Bool := false
  /-- The passes that were made, oldest first. -/
  passes : List Patrol.Pass := []

namespace Patrol

/-- What can happen to a sweeper's task and around it. -/
inductive Event where
  | advance (step : Duration)
  /-- Somebody else changes the index. -/
  | change (c : Index.Change)
  /-- The task is given a chance to run. -/
  | poll
  /-- The handle is told to stop. -/
  | stop
  /-- The handle is dropped. -/
  | drop

/-- Whether an event cannot move a driver, unless by a pass of the sweeper. -/
def Event.leaves (d : String) : Event → Bool
  | change c => c.driverId?.any (· ≠ d)
  | _ => true

/-- A task that was spawned and has not run yet. -/
def spawn (clock : Clock) (service : DriverService) : Patrol := { clock, service }

/-- The cleanup interval of the index. -/
def interval (p : Patrol) : Duration := p.service.index.config.cleanupInterval

/-- The position that the index has for a driver. -/
def lookup (p : Patrol) (d : String) : Option Position := p.service.index.lookup d

/-- The number of passes, as the handle has it. -/
def sweeps (p : Patrol) : Nat := p.sweeper.elim 0 Sweeper.sweeps

/-- The number of drivers that passes have removed, as the handle has it. -/
def evicted (p : Patrol) : Nat := p.sweeper.elim 0 Sweeper.evicted

/-- The moments at which the task went to sleep, oldest first. -/
def rests (p : Patrol) : List Clock := p.armedAt.toList ++ p.passes.map Pass.clock

/-- The task last went to sleep at its last pass, or when it was armed. -/
theorem getLast?_rests (p : Patrol) :
    p.rests.getLast? = (p.passes.getLast?.map Pass.clock).or p.armedAt := by
  rw [rests, List.getLast?_append, List.getLast?_map]
  cases p.armedAt <;> rfl

/-- The task runs for the first time. -/
def arm (p : Patrol) : Patrol :=
  { p with sweeper := some (.start p.clock p.interval), armedAt := some p.clock }

/-- The task runs again. -/
def wake (p : Patrol) (w : Sweeper) : Patrol :=
  let (after, service) := w.poll p.clock p.service
  { p with
    service
    sweeper := some after
    passes :=
      if w.isDue p.clock then p.passes ++ [⟨p.clock, p.service.index, service.index⟩]
      else p.passes }

/-- The task is given a chance to run.  A task that was cancelled before it ran for the first time
does not go to sleep. -/
def poll (p : Patrol) : Patrol :=
  match p.sweeper with
  | none => if p.isCancelled then p else p.arm
  | some w => p.wake w

/-- The task is cancelled. -/
def cancel (p : Patrol) : Patrol :=
  { p with sweeper := p.sweeper.map Sweeper.stop, isCancelled := true }

/-- One thing happens. -/
def next (p : Patrol) : Event → Patrol
  | .advance step => { p with clock := p.clock.advance step }
  | .change c => { p with service.index := (p.service.index.run c.operation).2 }
  | .poll => p.poll
  | .stop => p.cancel
  | .drop => p.cancel

/-- Many things happen, one after the other. -/
def after (p : Patrol) (events : List Event) : Patrol := events.foldl next p

/-- The pass that a sweeper makes if it is due. -/
def pass (p : Patrol) : Pass where
  clock := p.clock
  before := p.service.index
  after := (p.service.index.sweepStale p.clock.timestamp).2

/-- The task after a pass. -/
def passed (p : Patrol) (w : Sweeper) : Patrol :=
  { p with
    service.index := p.pass.after
    sweeper := some { w with
      wakesAt := p.clock.wakeAfter p.interval
      sweeps := w.sweeps + 1
      evicted := w.evicted + p.pass.removed.length }
    passes := p.passes ++ [p.pass] }

theorem wake_of_not_isDue {p : Patrol} {w : Sweeper} (hw : p.sweeper = some w)
    (hdue : w.isDue p.clock = false) : p.wake w = p := by
  obtain ⟨clock, service, sweeper, armedAt, isCancelled, passes⟩ := p
  obtain rfl : sweeper = some w := hw
  simp only [wake, Sweeper.poll, hdue, Bool.false_eq_true, if_false]

theorem wake_of_isDue {p : Patrol} {w : Sweeper} (hdue : w.isDue p.clock) :
    p.wake w = p.passed w := by
  have hcount : (p.service.index.sweepStale p.clock.timestamp).1 = p.pass.removed.length :=
    congrArg List.length (Index.stale_eq_filter ..)
  have hconfig : (p.service.index.sweepStale p.clock.timestamp).2.config = p.service.index.config :=
    Index.config_foldl_remove ..
  simp only [wake, Sweeper.poll, hdue, if_true, DriverService.sweep, passed, interval, pass,
    hconfig, hcount]

/-- **What a chance to run comes to:** nothing, the first sleep, or a pass. -/
theorem poll_cases (p : Patrol) :
    (p.poll = p ∧ ((p.sweeper = none ∧ p.isCancelled) ∨
      ∃ w, p.sweeper = some w ∧ w.isDue p.clock = false)) ∨
    (p.poll = p.arm ∧ p.sweeper = none ∧ p.isCancelled = false) ∨
    ∃ w, p.sweeper = some w ∧ w.isDue p.clock ∧ p.poll = p.passed w := by
  cases hw : p.sweeper with
  | none =>
    have hpoll : p.poll = if p.isCancelled then p else p.arm := by
      rw [poll, hw]
    cases hcancelled : p.isCancelled with
    | true => exact .inl ⟨by rw [hpoll, if_pos hcancelled], .inl ⟨rfl, rfl⟩⟩
    | false => exact .inr (.inl ⟨by rw [hpoll, if_neg (by simp [hcancelled])], rfl, rfl⟩)
  | some w =>
    have hpoll : p.poll = p.wake w := by
      rw [poll, hw]
    cases hdue : w.isDue p.clock with
    | false => exact .inl ⟨by rw [hpoll, wake_of_not_isDue hw hdue], .inr ⟨w, rfl, hdue⟩⟩
    | true => exact .inr (.inr ⟨w, rfl, hdue, by rw [hpoll, wake_of_isDue hdue]⟩)

/-! ## What every event keeps -/

/-- **The task is on time.**  It sleeps from the moment at which it was armed but for its passes, it
wakes one interval after it last went to sleep, and its passes are what they should be. -/
structure OnTime (config : IndexConfig) (p : Patrol) : Prop where
  config_eq : p.service.index.config = config
  unarmed : p.sweeper = none → p.rests = []
  armed : ∀ w, p.sweeper = some w → ∃ start, p.armedAt = some start
  isStopped_eq : ∀ w, p.sweeper = some w → w.isStopped = p.isCancelled
  wakesAt_eq : ∀ w, p.sweeper = some w →
    ∃ s, p.rests.getLast? = some s ∧ w.wakesAt = s.wakeAfter config.cleanupInterval
  rested : ∀ w, p.sweeper = some w →
    ∀ s ∈ p.rests, s.wakeAfter config.cleanupInterval ≤ w.wakesAt
  past : ∀ s ∈ p.rests, s.elapsed ≤ p.clock.elapsed
  paced : p.rests.Pairwise fun s t => s.wakeAfter config.cleanupInterval ≤ t.elapsed
  exact : ∀ q ∈ p.passes, ∀ d,
    q.after.lookup d = (q.before.lookup d).filter (q.spares config.staleTimeout)
  sweeps_eq : p.sweeps = p.passes.length
  evicted_eq : p.evicted = (p.passes.map fun q => q.removed.length).sum

theorem onTime_spawn (clock : Clock) (service : DriverService) :
    (spawn clock service).OnTime service.index.config where
  config_eq := rfl
  unarmed _ := rfl
  armed _ h := by cases h
  isStopped_eq _ h := by cases h
  wakesAt_eq _ h := by cases h
  rested _ h := by cases h
  past _ h := by cases h
  paced := .nil
  exact _ h := by cases h
  sweeps_eq := rfl
  evicted_eq := rfl

section Events

variable {config : IndexConfig} {p : Patrol} (h : p.OnTime config)
include h

theorem OnTime.advance (step : Duration) : (p.next (.advance step)).OnTime config :=
  { h with
    past := by
      intro s hs
      have hpast := h.past s hs
      have hbounded := p.clock.bounded
      show s.elapsed ≤ min (p.clock.elapsed + step.nanos) Clock.last
      unfold Clock.last
      omega }

theorem OnTime.change (c : Index.Change) : (p.next (.change c)).OnTime config :=
  { h with config_eq := (Index.config_run ..).trans h.config_eq }

theorem OnTime.cancel : p.cancel.OnTime config := by
  have hsweeper : ∀ w, p.cancel.sweeper = some w → ∃ w', p.sweeper = some w' ∧ w = w'.stop := by
    intro w hw
    obtain ⟨w', hw', rfl⟩ := Option.map_eq_some_iff.mp hw
    exact ⟨w', hw', rfl⟩
  have hcounts : p.cancel.sweeps = p.sweeps ∧ p.cancel.evicted = p.evicted := by
    unfold sweeps evicted Patrol.cancel
    cases p.sweeper <;> exact ⟨rfl, rfl⟩
  refine { h with
    unarmed := fun hnone => h.unarmed (Option.map_eq_none_iff.mp hnone)
    armed := ?_, isStopped_eq := ?_, wakesAt_eq := ?_, rested := ?_
    sweeps_eq := hcounts.1.trans h.sweeps_eq
    evicted_eq := hcounts.2.trans h.evicted_eq }
  · intro w hw
    obtain ⟨w', hw', -⟩ := hsweeper w hw
    exact h.armed w' hw'
  · intro w hw
    obtain ⟨w', -, rfl⟩ := hsweeper w hw
    rfl
  · intro w hw
    obtain ⟨w', hw', rfl⟩ := hsweeper w hw
    exact h.wakesAt_eq w' hw'
  · intro w hw
    obtain ⟨w', hw', rfl⟩ := hsweeper w hw
    exact h.rested w' hw'

theorem OnTime.arm (hsweeper : p.sweeper = none) (hcancelled : p.isCancelled = false) :
    p.arm.OnTime config := by
  have hnever : p.armedAt.toList = [] ∧ p.passes = [] := by
    have := h.unarmed hsweeper
    rwa [rests, List.append_eq_nil_iff, List.map_eq_nil_iff] at this
  have hpasses : p.arm.passes = [] := hnever.2
  have hrests : p.arm.rests = [p.clock] := by
    rw [rests, hpasses]
    rfl
  have hasleep : ∀ w, p.arm.sweeper = some w →
      w = .start p.clock config.cleanupInterval := by
    intro w hw
    rw [← h.config_eq]
    exact (Option.some.inj hw).symm
  refine ⟨h.config_eq, fun hnone => (Option.some_ne_none _ hnone).elim, fun _ _ => ⟨_, rfl⟩,
    ?_, ?_, ?_, ?_, ?_, ?_, ?_, ?_⟩
  · intro w hw
    rw [hasleep w hw]
    exact hcancelled.symm
  · intro w hw
    rw [hasleep w hw, hrests]
    exact ⟨p.clock, rfl, rfl⟩
  · intro w hw s hs
    rw [hrests, List.mem_singleton] at hs
    rw [hasleep w hw, hs]
    exact Nat.le_refl _
  · intro s hs
    rw [hrests, List.mem_singleton] at hs
    rw [hs]
    exact Nat.le_refl _
  · rw [hrests]
    exact List.pairwise_singleton ..
  · rw [hpasses]
    exact fun q hq => absurd hq List.not_mem_nil
  · rw [hpasses]
    rfl
  · rw [hpasses]
    rfl

theorem OnTime.passed {w : Sweeper} (hw : p.sweeper = some w) (hdue : w.isDue p.clock) :
    (p.passed w).OnTime config := by
  have hawake : w.wakesAt ≤ p.clock.elapsed := by
    rw [Sweeper.isDue, Bool.and_eq_true, decide_eq_true_iff] at hdue
    exact hdue.2
  have hrests : (p.passed w).rests = p.rests ++ [p.clock] := by
    simp [rests, Patrol.passed, pass]
  have hasleep : ∀ w', (p.passed w).sweeper = some w' →
      w'.wakesAt = p.clock.wakeAfter config.cleanupInterval ∧ w'.isStopped = w.isStopped := by
    rintro w' ⟨⟩
    rw [← h.config_eq]
    exact ⟨rfl, rfl⟩
  -- a new sleep ends no earlier than it begins, and so after all the others
  have hlater : p.clock.elapsed ≤ p.clock.wakeAfter config.cleanupInterval := by
    have := p.clock.bounded
    unfold Clock.wakeAfter Clock.last
    omega
  refine ⟨(Index.config_foldl_remove ..).trans h.config_eq,
    fun hnone => (Option.some_ne_none _ hnone).elim, fun _ _ => h.armed w hw,
    ?_, ?_, ?_, ?_, ?_, ?_, ?_, ?_⟩
  · intro w' hw'
    rw [(hasleep w' hw').2]
    exact h.isStopped_eq w hw
  · intro w' hw'
    rw [hrests]
    exact ⟨p.clock, List.getLast?_concat, (hasleep w' hw').1⟩
  · intro w' hw' s hs
    rw [(hasleep w' hw').1]
    rw [hrests, List.mem_append, List.mem_singleton] at hs
    rcases hs with hs | rfl
    · exact (h.rested w hw s hs).trans (hawake.trans hlater)
    · exact Nat.le_refl _
  · intro s hs
    rw [hrests, List.mem_append, List.mem_singleton] at hs
    rcases hs with hs | rfl
    · exact h.past s hs
    · exact Nat.le_refl _
  · rw [hrests, List.pairwise_append]
    refine ⟨h.paced, List.pairwise_singleton .., fun s hs t ht => ?_⟩
    rw [List.mem_singleton.mp ht]
    exact (h.rested w hw s hs).trans hawake
  · intro q hq d
    rcases List.mem_append.mp hq with hq | hq
    · exact h.exact q hq d
    · rw [List.mem_singleton.mp hq, ← h.config_eq]
      exact Index.lookup_sweep ..
  · have hsweeps : w.sweeps = p.passes.length := by
      rw [← h.sweeps_eq, sweeps, hw]
      rfl
    show w.sweeps + 1 = (p.passes ++ [p.pass]).length
    rw [hsweeps, List.length_append, List.length_singleton]
  · have hevicted : w.evicted = (p.passes.map fun q => q.removed.length).sum := by
      rw [← h.evicted_eq, evicted, hw]
      rfl
    show w.evicted + p.pass.removed.length = ((p.passes ++ [p.pass]).map _).sum
    rw [hevicted, List.map_append, List.sum_append]
    rfl

theorem OnTime.poll : p.poll.OnTime config := by
  rcases p.poll_cases with ⟨heq, -⟩ | ⟨heq, hsweeper, hcancelled⟩ | ⟨w, hw, hdue, heq⟩
  · rwa [heq]
  · rw [heq]
    exact h.arm hsweeper hcancelled
  · rw [heq]
    exact h.passed hw hdue

/-- **Whatever happens next,** the task stays on time. -/
theorem OnTime.next (e : Event) : (p.next e).OnTime config := by
  cases e with
  | advance step => exact h.advance step
  | change c => exact h.change c
  | poll => exact h.poll
  | stop => exact h.cancel
  | drop => exact h.cancel

end Events

theorem OnTime.after {config : IndexConfig} {p : Patrol} (h : p.OnTime config)
    (events : List Event) : (p.after events).OnTime config := by
  induction events generalizing p with
  | nil => exact h
  | cons e events ih => exact ih (h.next e)

/-! ## When a pass is made, and when not -/

section Passes

variable {config : IndexConfig} {p : Patrol} (h : p.OnTime config)
include h

/-- **A sweeper is due when the interval is over** since its task went to sleep, unless it was
cancelled. -/
theorem OnTime.isDue_iff (htime : p.clock.elapsed + config.cleanupInterval.nanos < 2 ^ 64)
    {w : Sweeper} (hw : p.sweeper = some w) :
    w.isDue p.clock ↔ p.isCancelled = false ∧ ∃ s, p.rests.getLast? = some s ∧
      s.elapsed + config.cleanupInterval.nanos ≤ p.clock.elapsed := by
  obtain ⟨s, hs, hwakes⟩ := h.wakesAt_eq w hw
  have hpast := h.past s (List.mem_of_getLast? hs)
  have hwake : s.wakeAfter config.cleanupInterval =
      s.elapsed + config.cleanupInterval.nanos := by
    unfold Clock.wakeAfter Clock.last
    omega
  rw [Sweeper.isDue, h.isStopped_eq w hw, hwakes, hwake, hs]
  simp

/-- A chance to run brings a pass exactly if the sweeper is due. -/
theorem OnTime.length_poll_iff (htime : p.clock.elapsed + config.cleanupInterval.nanos < 2 ^ 64) :
    p.poll.passes.length = p.passes.length + 1 ↔
      p.isCancelled = false ∧ ∃ s, p.rests.getLast? = some s ∧
        s.elapsed + config.cleanupInterval.nanos ≤ p.clock.elapsed := by
  have hidle : p.passes.length ≠ p.passes.length + 1 := Nat.ne_of_lt (Nat.lt_succ_self _)
  rcases p.poll_cases with ⟨heq, hasleep⟩ | ⟨heq, hsweeper, -⟩ | ⟨w, hw, hdue, heq⟩
  · rw [heq, iff_false_left hidle]
    rcases hasleep with ⟨-, hcancelled⟩ | ⟨w, hw, hdue⟩
    · simp [hcancelled]
    · rw [← h.isDue_iff htime hw, hdue]
      exact Bool.false_ne_true
  · have hpasses : p.arm.passes.length ≠ p.passes.length + 1 := hidle
    rw [heq, iff_false_left hpasses, h.unarmed hsweeper]
    simp
  · rw [heq, ← h.isDue_iff htime hw, iff_true_right hdue]
    exact List.length_append

/-- **A cancelled task makes no pass,** due or not. -/
theorem OnTime.next_of_isCancelled (hcancelled : p.isCancelled) (e : Event) :
    (p.next e).isCancelled ∧ (p.next e).passes = p.passes := by
  cases e with
  | advance step => exact ⟨hcancelled, rfl⟩
  | change c => exact ⟨hcancelled, rfl⟩
  | poll =>
    show p.poll.isCancelled ∧ p.poll.passes = p.passes
    rcases p.poll_cases with ⟨heq, -⟩ | ⟨-, -, hgoing⟩ | ⟨w, hw, hdue, -⟩
    · rw [heq]
      exact ⟨hcancelled, rfl⟩
    · rw [hgoing] at hcancelled
      cases hcancelled
    · rw [Sweeper.isDue, h.isStopped_eq w hw, hcancelled] at hdue
      cases hdue
  | stop => exact ⟨rfl, rfl⟩
  | drop => exact ⟨rfl, rfl⟩

theorem OnTime.after_of_isCancelled (hcancelled : p.isCancelled) (events : List Event) :
    (p.after events).isCancelled ∧ (p.after events).passes = p.passes := by
  induction events generalizing p with
  | nil => exact ⟨hcancelled, rfl⟩
  | cons e events ih =>
    obtain ⟨hstill, hpasses⟩ := h.next_of_isCancelled hcancelled e
    rw [← hpasses]
    exact ih (h.next e) hstill

theorem OnTime.isCancelled_after {events : List Event}
    (hmem : .stop ∈ events ∨ .drop ∈ events) : (p.after events).isCancelled := by
  induction events generalizing p with
  | nil => simp at hmem
  | cons e events ih =>
    have hnow : e = .stop ∨ e = .drop ∨ .stop ∈ events ∨ .drop ∈ events := by
      simp only [List.mem_cons] at hmem
      grind
    rcases hnow with rfl | rfl | hlater
    · exact ((h.next .stop).after_of_isCancelled rfl events).1
    · exact ((h.next .drop).after_of_isCancelled rfl events).1
    · exact ih (h.next e) hlater

/-! ## Silent drivers -/

/-- **A driver about whom nothing happens keeps its position** unless a pass finds that too old. -/
theorem OnTime.lookup_next {d : String} {e : Event} (hleaves : e.leaves d) :
    ∃ made, (p.next e).passes = p.passes ++ made ∧
      (p.next e).lookup d = spared config.staleTimeout made (p.lookup d) := by
  -- what is not a pass leaves the record and the driver as they are
  have hidle : ∀ p' : Patrol, p'.passes = p.passes → p'.lookup d = p.lookup d →
      ∃ made, p'.passes = p.passes ++ made ∧
        p'.lookup d = spared config.staleTimeout made (p.lookup d) :=
    fun p' hpasses hlookup =>
      ⟨[], by rw [hpasses, List.append_nil], by rw [hlookup, spared_nil]⟩
  cases e with
  | advance step => exact hidle _ rfl rfl
  | change c =>
    refine hidle _ rfl ?_
    cases hother : c.driverId? with
    | none =>
      rw [Event.leaves, hother] at hleaves
      cases hleaves
    | some other =>
      rw [Event.leaves, hother, Option.any_some, decide_eq_true_iff] at hleaves
      show (p.service.index.run c.operation).2.lookup d = _
      rw [← Index.change_arrival]
      exact Index.lookup_change .arrival hother hleaves.symm
  | poll =>
    show ∃ made, p.poll.passes = p.passes ++ made ∧ p.poll.lookup d = _
    rcases p.poll_cases with ⟨heq, -⟩ | ⟨heq, -⟩ | ⟨w, -, -, heq⟩ <;> rw [heq]
    · exact hidle _ rfl rfl
    · exact hidle _ rfl rfl
    · refine ⟨[p.pass], rfl, ?_⟩
      simp only [spared, List.all_cons, List.all_nil, Bool.and_true, ← h.config_eq]
      exact Index.lookup_sweep ..
  | stop => exact hidle _ rfl rfl
  | drop => exact hidle _ rfl rfl

theorem OnTime.lookup_after {d : String} {events : List Event}
    (hleaves : ∀ e ∈ events, e.leaves d) :
    ∃ made, (p.after events).passes = p.passes ++ made ∧
      (p.after events).lookup d = spared config.staleTimeout made (p.lookup d) := by
  induction events generalizing p with
  | nil => exact ⟨[], (List.append_nil _).symm, (spared_nil ..).symm⟩
  | cons e events ih =>
    obtain ⟨made, hpasses, hlookup⟩ := h.lookup_next (hleaves e List.mem_cons_self)
    obtain ⟨later, hpasses', hlookup'⟩ :=
      ih (h.next e) fun e' he' => hleaves e' (List.mem_cons_of_mem _ he')
    refine ⟨made ++ later, ?_, ?_⟩
    · rw [← List.append_assoc, ← hpasses]
      exact hpasses'
    · rw [spared_append, ← hlookup]
      exact hlookup'

end Passes

/-! ## Every run -/

/-- **A sweeper keeps its schedule.**  Its task is spawned at any time over any index, and then the
clock is advanced, the index changed by others, the task given chances to run and its handle told to
stop or dropped, in any order, as long as the clock can show the end of another interval.  Two
passes are at least the cleanup interval apart, and every pass comes at least that long after the
task was armed; a chance to run brings a pass exactly if the task was armed, not cancelled, and has
slept for the interval.  A pass leaves a driver its position if that is at most `staleTimeout` old,
to the nanosecond, and drops the driver otherwise; so a driver about whom nothing else happens has
its position until a pass finds that too old, and from then on none.  The handle counts the passes
and the drivers that they removed.  Once it was told to stop or dropped there is no further pass,
not even one that was due. -/
theorem sweeps_on_schedule (clock : Clock) (service : DriverService) (events more : List Event)
    (htime : ((spawn clock service).after events).clock.elapsed +
      service.index.config.cleanupInterval.nanos < 2 ^ 64) :
    let interval := service.index.config.cleanupInterval.nanos
    let limit := service.index.config.staleTimeout
    let p := (spawn clock service).after events
    let p' := p.after more
    (p.passes.Pairwise fun q r => q.clock.elapsed + interval ≤ r.clock.elapsed) ∧
    (∀ q ∈ p.passes, ∃ start, p.armedAt = some start ∧
      start.elapsed + interval ≤ q.clock.elapsed) ∧
    (p.poll.passes.length = p.passes.length + 1 ↔ p.isCancelled = false ∧
      ∃ s, (p.passes.getLast?.map Pass.clock).or p.armedAt = some s ∧
        s.elapsed + interval ≤ p.clock.elapsed) ∧
    (∀ q ∈ p.passes, ∀ d,
      q.after.lookup d = (q.before.lookup d).filter (·.isWithin q.clock.timestamp limit)) ∧
    (∀ d, (∀ e ∈ more, e.leaves d) → ∃ made, p'.passes = p.passes ++ made ∧
      p'.lookup d =
        (p.lookup d).filter fun x => made.all fun q => x.isWithin q.clock.timestamp limit) ∧
    p.sweeps = p.passes.length ∧
    p.evicted = (p.passes.map fun q => q.removed.length).sum ∧
    (.stop ∈ events ∨ .drop ∈ events → p'.passes = p.passes) := by
  intro interval limit p p'
  have h : p.OnTime service.index.config := (onTime_spawn clock service).after events
  have hrested : p.rests.Pairwise fun s t => s.elapsed + interval ≤ t.elapsed := by
    refine h.paced.imp_of_mem fun {s t} hs _ hst => ?_
    have hpast := h.past s hs
    have htime : p.clock.elapsed + interval < 2 ^ 64 := htime
    have hst : min (s.elapsed + interval) Clock.last ≤ t.elapsed := hst
    unfold Clock.last at hst
    omega
  rw [rests, List.pairwise_append, List.pairwise_map] at hrested
  obtain ⟨-, hpaced, hfirst⟩ := hrested
  refine ⟨hpaced, ?_, ?_, h.exact, fun d => h.lookup_after, h.sweeps_eq, h.evicted_eq, ?_⟩
  · intro q hq
    have hne : p.rests ≠ [] :=
      List.append_ne_nil_of_right_ne_nil _ (List.ne_nil_of_mem (List.mem_map_of_mem hq))
    obtain ⟨w, hw⟩ := Option.ne_none_iff_exists'.mp (mt h.unarmed hne)
    obtain ⟨start, hstart⟩ := h.armed w hw
    refine ⟨start, hstart, hfirst start ?_ _ (List.mem_map_of_mem hq)⟩
    rw [hstart]
    exact List.mem_singleton_self start
  · rw [← getLast?_rests]
    exact h.length_poll_iff htime
  · intro hmem
    exact (h.after_of_isCancelled ((onTime_spawn clock service).isCancelled_after hmem) more).2

/-- A service without drivers and with the settings by default: a pass every five minutes, which
drops what is more than half a minute old. -/
def quiet : DriverService where
  requestTimeout := .ofSeconds 1
  index := .new {}
  forwarder := .new {}

/-- Two drivers report once each; the clock jumps over several intervals, and once more before the
task is stopped. -/
def twoReports : List Event :=
  [.poll, .change (.update "d" 0 0 1704067200000), .advance (.ofSeconds 300),
    .change (.update "e" 0 0 1704067500000), .poll, .advance (.ofSeconds 1000), .poll,
    .advance (.ofSeconds 300), .stop]

/-- Of the two drivers the first pass finds one silent, the second the other; the third pass is
due and is not made. -/
theorem sweeps_on_schedule_of_two_reports :
    let p := (spawn .start quiet).after twoReports
    p.clock.elapsed + quiet.index.config.cleanupInterval.nanos < 2 ^ 64 ∧
    (p.passes.map Pass.removed) = [["d"], ["e"]] ∧
    p.sweeps = 2 ∧ p.evicted = 2 ∧
    (p.passes.Pairwise fun q r => q.clock.elapsed + 300 * nanosPerSecond ≤ r.clock.elapsed) ∧
    (p.after [.poll]).passes = p.passes := by
  intro p
  have htime : p.clock.elapsed + quiet.index.config.cleanupInterval.nanos < 2 ^ 64 := by
    decide +kernel
  have hremoved : p.passes.map Pass.removed = [["d"], ["e"]] := by decide +kernel
  obtain ⟨hpaced, -, -, -, -, hsweeps, hevicted, hstopped⟩ :=
    sweeps_on_schedule .start quiet twoReports [.poll] htime
  refine ⟨htime, hremoved, ?_, ?_, hpaced, hstopped (.inl ?_)⟩
  · rw [hsweeps, ← List.length_map Pass.removed, hremoved]
    rfl
  · have hcounts := congrArg (List.map List.length) hremoved
    rw [List.map_map] at hcounts
    exact hevicted.trans (congrArg List.sum hcounts)
  · simp [twoReports]

end Patrol
end Fleet
