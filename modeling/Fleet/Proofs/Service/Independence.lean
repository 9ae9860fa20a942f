import Fleet.Service.Sweeper

/-!
# The foreground does not depend on the downstream

A driver service in use: operations are asked of it at given clock values, sweepers make their
passes, and behind the queue a worker, a sink and the timeouts of deliveries do what they like, also
between the two steps of one update.  `Front` is what the operations see, the index and the
sweepers, and `Front.perform` is what they do there with no downstream at all.  A deployment answers
as its front alone does (`Deployment.run_front`); so two deployments that are asked the same answer
the same and hold the same index, whatever happens behind their queues (`foreground_independent`).
-/

namespace Fleet

/-- **A driver service in use,** with the sweepers that were started and the state of the sink. -/
structure Deployment (σ : Type) where
  service : DriverService
  sweepers : List Sweeper := []
  sink : σ

namespace Deployment

/-- What is asked of a service, and the wakings of its sweepers. -/
inductive Operation where
  | update (driverId : String) (latitude longitude : Float)
  | nearby (latitude longitude : Float) (limit : Nat)
  | position (driverId : String)
  | remove (driverId : String)
  | drivers
  | sweep
  | startSweeper
  | stopSweeper (number : Nat)
  /-- A sweeper is given a chance to run. -/
  | pollSweeper (number : Nat)

/-- What an operation answers. -/
inductive Answer where
  | done (result : Except FleetError Unit)
  | found (result : Except FleetError (List String))
  | position (result : Except FleetError Position)
  | removed (wasPresent : Bool)
  | records (records : List DriverRecord)
  | evicted (count : Nat)
  /-- The sweeper that was asked for, with its counts. -/
  | sweeper (sweeper : Option Sweeper)

/-- **What happens behind the queue.** -/
inductive Background (σ : Type) where
  /-- The worker makes so many deliveries at most. -/
  | turn (deliveries : Nat)
  /-- The delivery in progress ends: the sink answers late, or the time for it is over. -/
  | settle (wasAccepted : Bool)
  /-- The worker goes down. -/
  | stop
  /-- The sink goes into another state by itself. -/
  | alter (state : σ)

variable {σ : Type} (sink : Sink σ)

/-- One thing happens behind the queue. -/
def background (d : Deployment σ) : Background σ → Deployment σ
  | .turn deliveries =>
    let (service, state) := d.service.turn deliveries sink d.sink
    { d with service, sink := state }
  | .settle wasAccepted =>
    if d.service.forwarder.inDelivery.isSome then
      { d with service.forwarder := d.service.forwarder.settle wasAccepted }
    else d
  | .stop => { d with service.forwarder := d.service.forwarder.close }
  | .alter state => { d with sink := state }

/-- The sweeper of a number does something to itself and to the service. -/
def withSweeper (d : Deployment σ) (number : Nat)
    (act : Sweeper → DriverService → Sweeper × DriverService) : Answer × Deployment σ :=
  match d.sweepers[number]? with
  | none => (.sweeper none, d)
  | some w =>
    let (w, service) := act w d.service
    (.sweeper (some w), { d with service, sweepers := d.sweepers.set number w })

/-- An update at the time `now`.  What happens behind the queue `meantime` comes after the index has
taken the position and before the fix is queued. -/
def update (d : Deployment σ) (now : Timestamp) (meantime : List (Background σ))
    (driverId : String) (latitude longitude : Float) : Answer × Deployment σ :=
  match d.service.record now driverId latitude longitude with
  | .error e => (.done (.error e), d)
  | .ok (position, service) =>
    let d := meantime.foldl (background sink) { d with service }
    (.done (.ok ()), { d with service := d.service.forward now driverId position })

/-- **One operation at the time that a clock shows:** its answer and the deployment after it. -/
def perform (d : Deployment σ) (clock : Clock) (meantime : List (Background σ)) :
    Operation → Answer × Deployment σ
  | .update driverId latitude longitude =>
    d.update sink clock.timestamp meantime driverId latitude longitude
  | .nearby latitude longitude limit =>
    let (found, service) := d.service.nearby latitude longitude limit
    (.found found, { d with service })
  | .position driverId => (.position (d.service.position driverId), d)
  | .remove driverId =>
    let (wasPresent, service) := d.service.remove driverId
    (.removed wasPresent, { d with service })
  | .drivers => (.records (d.service.drivers clock.timestamp), d)
  | .sweep =>
    let (count, service) := d.service.sweep clock.timestamp
    (.evicted count, { d with service })
  | .startSweeper =>
    let w := Sweeper.start clock d.service.index.config.cleanupInterval
    (.sweeper (some w), { d with sweepers := d.sweepers ++ [w] })
  | .stopSweeper number => d.withSweeper number fun w service => (w.stop, service)
  | .pollSweeper number => d.withSweeper number (Sweeper.poll · clock ·)

/-- **What happens to a deployment.** -/
inductive Event (σ : Type) where
  | operation (clock : Clock) (request : Operation) (meantime : List (Background σ))
  | background (happening : Background σ)

/-- What an event asks of the service, and when. -/
def Event.request? : Event σ → Option (Clock × Operation)
  | operation clock request _ => some (clock, request)
  | background _ => none

/-- One thing happens; what it asks is answered. -/
def next (d : Deployment σ) : Event σ → Option Answer × Deployment σ
  | .operation clock operation meantime =>
    let (answer, d) := d.perform sink clock meantime operation
    (some answer, d)
  | .background happening => (none, d.background sink happening)

/-! ## What the foreground sees -/

/-- **The front of a deployment:** the index with both its tables, and the sweepers. -/
structure Front where
  index : Index
  sweepers : List Sweeper := []

/-- The front of a deployment. -/
def front (d : Deployment σ) : Front := ⟨d.service.index, d.sweepers⟩

namespace Front

/-- The sweeper of a number does something to itself and to the index. -/
def withSweeper (f : Front) (number : Nat) (act : Sweeper → Index → Sweeper × Index) :
    Answer × Front :=
  match f.sweepers[number]? with
  | none => (.sweeper none, f)
  | some w =>
    let (w, index) := act w f.index
    (.sweeper (some w), ⟨index, f.sweepers.set number w⟩)

/-- A sweeper is stopped. -/
def stop (w : Sweeper) (index : Index) : Sweeper × Index := (w.stop, index)

/-- A pass of a sweeper over the index, if it is due. -/
def pass (clock : Clock) (w : Sweeper) (index : Index) : Sweeper × Index :=
  if w.isDue clock then
    let (count, index) := index.sweepStale clock.timestamp
    ({ w with
        wakesAt := clock.wakeAfter index.config.cleanupInterval
        sweeps := w.sweeps + 1
        evicted := w.evicted + count }, index)
  else (w, index)

/-- An update at the time `now`. -/
def update (f : Front) (now : Timestamp) (driverId : String) (latitude longitude : Float) :
    Answer × Front :=
  match f.index.update driverId latitude longitude now with
  | .error e => (.done (.error e), f)
  | .ok (_, index) => (.done (.ok ()), { f with index })

/-- **One operation where there is no downstream.** -/
def perform (f : Front) (clock : Clock) : Operation → Answer × Front
  | .update driverId latitude longitude =>
    f.update clock.timestamp driverId latitude longitude
  | .nearby latitude longitude limit =>
    (.found (f.index.nearest latitude longitude limit),
      { f with index := f.index.afterNearest latitude longitude limit })
  | .position driverId =>
    (.position ((f.index.lookup driverId).elim (.error (.notFound driverId)) .ok), f)
  | .remove driverId =>
    (.removed (f.index.drivers.contains driverId), { f with index := f.index.remove driverId })
  | .drivers => (.records (f.index.records clock.timestamp), f)
  | .sweep =>
    let (count, index) := f.index.sweepStale clock.timestamp
    (.evicted count, { f with index })
  | .startSweeper =>
    let w := Sweeper.start clock f.index.config.cleanupInterval
    (.sweeper (some w), { f with sweepers := f.sweepers ++ [w] })
  | .stopSweeper number => f.withSweeper number stop
  | .pollSweeper number => f.withSweeper number (pass clock)

end Front

/-- **A run:** what is answered to each operation with the front right after it, and what the run
ends with. -/
def run (d : Deployment σ) : List (Event σ) → List (Answer × Front) × Deployment σ
  | [] => ([], d)
  | event :: events =>
    let (answer, after) := d.next sink event
    let (rest, last) := after.run events
    ((answer.map fun a => (a, after.front)).toList ++ rest, last)

/-- The same requests made of a front. -/
def Front.run (f : Front) : List (Clock × Operation) → List (Answer × Front) × Front
  | [] => ([], f)
  | (clock, operation) :: requests =>
    let (answer, after) := f.perform clock operation
    let (rest, last) := after.run requests
    ((answer, after) :: rest, last)

/-! ## One step after another -/

section Steps

variable {sink} {d : Deployment σ}

/-- **Nothing behind the queue touches the front.** -/
@[simp] theorem front_background (happening : Background σ) :
    (d.background sink happening).front = d.front := by
  cases happening with
  | turn deliveries => rfl
  | settle wasAccepted =>
    rw [background]
    split <;> rfl
  | stop => rfl
  | alter state => rfl

@[simp] theorem front_foldl_background (happenings : List (Background σ)) :
    (happenings.foldl (background sink) d).front = d.front := by
  induction happenings generalizing d with
  | nil => rfl
  | cons happening happenings ih => exact ih.trans (front_background happening)

/-- What a sweeper does to the service and to itself, seen at the front. -/
theorem front_withSweeper (act : Sweeper → DriverService → Sweeper × DriverService)
    (act' : Sweeper → Index → Sweeper × Index)
    (h : ∀ w service, act' w service.index = ((act w service).1, (act w service).2.index))
    (number : Nat) :
    d.front.withSweeper number act' =
      ((d.withSweeper number act).1, (d.withSweeper number act).2.front) := by
  unfold withSweeper Front.withSweeper
  cases hfound : d.sweepers[number]? with
  | none =>
    have hfound' : d.front.sweepers[number]? = none := hfound
    rw [hfound']
  | some w =>
    have hfound' : d.front.sweepers[number]? = some w := hfound
    have hact : act' w d.front.index = ((act w d.service).1, (act w d.service).2.index) :=
      h w d.service
    rw [hfound']
    dsimp only
    rw [hact]
    rfl

/-- A pass over the drivers of a service is a pass over its index. -/
theorem pass_index (clock : Clock) (w : Sweeper) (service : DriverService) :
    Front.pass clock w service.index =
      ((w.poll clock service).1, (w.poll clock service).2.index) := by
  unfold Sweeper.poll Front.pass
  split <;> rfl

/-- An update at the front: the index takes the position or refuses it. -/
theorem front_update (now : Timestamp) (meantime : List (Background σ)) (driverId : String)
    (latitude longitude : Float) :
    d.front.update now driverId latitude longitude =
      ((d.update sink now meantime driverId latitude longitude).1,
        (d.update sink now meantime driverId latitude longitude).2.front) := by
  unfold update Front.update DriverService.record
  have hindex : d.front.index = d.service.index := rfl
  rw [hindex]
  cases d.service.index.update driverId latitude longitude now with
  | error e => rfl
  | ok updated =>
    obtain ⟨position, index⟩ := updated
    have hmeantime : (meantime.foldl (background sink) { d with service.index := index }).front =
      ⟨index, d.sweepers⟩ := front_foldl_background meantime
    exact Prod.ext rfl hmeantime.symm

/-- **An operation answers and leaves at the front what it does where there is no downstream.** -/
theorem front_perform (clock : Clock) (meantime : List (Background σ)) (operation : Operation) :
    d.front.perform clock operation =
      ((d.perform sink clock meantime operation).1,
        (d.perform sink clock meantime operation).2.front) := by
  cases operation with
  | update driverId latitude longitude =>
    exact front_update clock.timestamp meantime driverId latitude longitude
  | nearby latitude longitude limit => rfl
  | position driverId =>
    rw [perform, Front.perform, DriverService.position]
    have hindex : d.front.index = d.service.index := rfl
    rw [hindex]
    cases d.service.index.lookup driverId <;> rfl
  | remove driverId => rfl
  | drivers => rfl
  | sweep => rfl
  | startSweeper => rfl
  | stopSweeper number => exact front_withSweeper _ Front.stop (fun _ _ => rfl) number
  | pollSweeper number => exact front_withSweeper _ (Front.pass clock) (pass_index clock) number

/-- **A deployment answers as its front alone does,** and has the same front at the end. -/
theorem front_run (events : List (Event σ)) :
    d.front.run (events.filterMap Event.request?) =
      ((d.run sink events).1, (d.run sink events).2.front) := by
  induction events generalizing d with
  | nil => rfl
  | cons event events ih =>
    cases event with
    | background happening =>
      have hrest := @ih (d.background sink happening)
      rw [front_background] at hrest
      exact hrest
    | operation clock request meantime =>
      have hstep := @front_perform _ sink d clock meantime request
      have hrest := @ih (d.perform sink clock meantime request).2
      show d.front.run ((clock, request) :: events.filterMap Event.request?) = _
      rw [Front.run, hstep]
      dsimp only
      rw [hrest]
      rfl

/-- **An update that is refused leaves everything as it was:** no fix is queued and nothing is
counted. -/
theorem update_refused {now : Timestamp} {meantime : List (Background σ)} {driverId : String}
    {latitude longitude : Float} {e : FleetError}
    (h : (d.update sink now meantime driverId latitude longitude).1 = .done (.error e)) :
    (d.update sink now meantime driverId latitude longitude).2 = d := by
  unfold update at h ⊢
  cases hrecord : d.service.record now driverId latitude longitude with
  | error e => rfl
  | ok recorded =>
    rw [hrecord] at h
    cases h

/-- With nothing in the meantime an update is the service's own. -/
theorem update_nil (now : Timestamp) (driverId : String) (latitude longitude : Float) :
    d.update sink now [] driverId latitude longitude =
      match d.service.update now driverId latitude longitude with
      | .error e => (.done (.error e), d)
      | .ok service => (.done (.ok ()), { d with service }) := by
  unfold update DriverService.update
  cases d.service.record now driverId latitude longitude <;> rfl

end Steps

/-! ## Two deployments -/

/-- What a configuration without a fault starts with. -/
theorem new_of_fault? {config : Config} (h : config.fault? = none) :
    DriverService.new config = .ok {
      requestTimeout := config.requestTimeout
      index := .new config.index
      forwarder := .new config.forwarder } := by
  unfold DriverService.new Config.validate
  rw [h]
  rfl

/-- A service that was just made has an index without drivers. -/
theorem index_of_new {config : Config} {service : DriverService}
    (h : DriverService.new config = .ok service) : service.index = .new config.index := by
  unfold DriverService.new at h
  cases hvalid : config.validate with
  | error e =>
    rw [hvalid] at h
    cases h
  | ok _ =>
    rw [hvalid] at h
    cases h
    rfl

/-- **What is asked of a service does not depend on the downstream,** neither its answer nor what
it leaves in the index.  Two services with the same index settings, whatever else their
configurations say (capacity of the queue, time for a delivery, time for a request), are used with
any two sinks, and the same is asked of them at the same times; anything may happen behind their
queues in between and in the middle of an update.  Then every operation has the same answer, the
index, with its table of drivers and its lists of cells, and the sweepers are the same after every
operation and at the end, and an update that is refused changes nothing, neither the queue nor a
count of the forwarder. -/
theorem foreground_independent {σ₁ σ₂ : Type} (sink₁ : Sink σ₁) (sink₂ : Sink σ₂) (state₁ : σ₁)
    (state₂ : σ₂) {config₁ config₂ : Config} {service₁ service₂ : DriverService}
    (hindex : config₁.index = config₂.index) (h₁ : DriverService.new config₁ = .ok service₁)
    (h₂ : DriverService.new config₂ = .ok service₂) (events₁ : List (Event σ₁))
    (events₂ : List (Event σ₂))
    (hrequests : events₁.filterMap Event.request? = events₂.filterMap Event.request?) :
    let d₁ : Deployment σ₁ := { service := service₁, sink := state₁ }
    let d₂ : Deployment σ₂ := { service := service₂, sink := state₂ }
    (d₁.run sink₁ events₁).1 = (d₂.run sink₂ events₂).1 ∧
    (d₁.run sink₁ events₁).2.front = (d₂.run sink₂ events₂).2.front ∧
    ∀ clock meantime driverId latitude longitude e,
      let d := (d₁.run sink₁ events₁).2
      (d.perform sink₁ clock meantime (.update driverId latitude longitude)).1 = .done (.error e) →
        (d.perform sink₁ clock meantime (.update driverId latitude longitude)).2 = d := by
  intro d₁ d₂
  have hfront : d₁.front = d₂.front := by
    have hindexes : service₁.index = service₂.index := by
      rw [index_of_new h₁, index_of_new h₂, hindex]
    exact congrArg (Front.mk · []) hindexes
  have hruns : ((d₁.run sink₁ events₁).1, (d₁.run sink₁ events₁).2.front) =
      ((d₂.run sink₂ events₂).1, (d₂.run sink₂ events₂).2.front) := by
    rw [← front_run, ← front_run, hfront, hrequests]
  refine ⟨congrArg Prod.fst hruns, congrArg Prod.snd hruns, ?_⟩
  intro clock meantime driverId latitude longitude e d
  exact update_refused

/-- A queue of one fix before a sink that refuses everything. -/
def narrow : Config := { forwarder := { queueCapacity := 1, sendTimeout := .ofMillis 1 } }

/-- The settings by default. -/
def wide : Config := {}

/-- A sink that refuses everything. -/
def refusing : Sink Unit := fun s _ => (.refused (.unreachable "sink"), s)

/-- A sink that counts what it accepts. -/
def counting : Sink Nat := fun n _ => (.accepted, n + 1)

/-- Two updates of a driver, and what happens behind the queue after the first of them. -/
def twoUpdates {σ : Type} (between : List (Background σ)) : List (Event σ) :=
  .operation .start (.update "d" 0 0) [] :: between.map .background ++
    [.operation .start (.update "d" 1 1) [], .operation .start (.position "d") []]

/-- One service drops the second fix, the other delivers both. -/
theorem foreground_independent_of_full_queue :
    ∃ service₁ service₂, DriverService.new narrow = .ok service₁ ∧
      DriverService.new wide = .ok service₂ ∧
      let d₁ : Deployment Unit := { service := service₁, sink := () }
      let d₂ : Deployment Nat := { service := service₂, sink := 0 }
      let end₁ := (d₁.run refusing (twoUpdates [])).2
      let end₂ := (d₂.run counting (twoUpdates [.turn 1])).2
      end₁.service.forwarder.stats.droppedFull = 1 ∧
      end₂.service.forwarder.stats.delivered = 1 ∧
      (d₁.run refusing (twoUpdates [])).1 = (d₂.run counting (twoUpdates [.turn 1])).1 ∧
      end₁.front = end₂.front := by
  have hindex : narrow.index = wide.index := rfl
  have h₁ : DriverService.new narrow = .ok _ := new_of_fault? (by decide +kernel)
  have h₂ : DriverService.new wide = .ok _ := new_of_fault? (by decide +kernel)
  have hsame := foreground_independent refusing counting () 0 hindex h₁ h₂ (twoUpdates [])
    (twoUpdates [.turn 1]) rfl
  exact ⟨_, _, h₁, h₂, by decide +kernel, by decide +kernel, hsame.1, hsame.2.1⟩

end Deployment

end Fleet
