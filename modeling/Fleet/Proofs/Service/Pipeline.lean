import Fleet.Proofs.Wire.Stable
import Fleet.Proofs.Forward.Conservation
import Fleet.Proofs.Store.Integrity
import Fleet.Proofs.Store.Locality
import Fleet.Service.DriverService

/-!
# From an update to the log

A driver service whose sink is a track store, as one machine: updates are accepted and their fixes
queued or dropped, drivers are removed and swept, the clock moves, and the worker takes a fix, hands
it to the store and settles it, in any order.  `Faithful` ties the logs of the backend to the fixes
that were handed over, and these to the updates that were accepted, which are those whose calls name
a driver and a valid coordinate (`updates_after`).  Main statement: behind the queue nothing is
lost, repeated or put out of order (`updates_reach_logs`).
-/

namespace Fleet

/-- What an envelope brings to a log, if its payload can be read. -/
def Envelope.stored? (e : Envelope) : Option Bytes :=
  (Wire.read? e.payload : Option TrackPoint).map Wire.write

namespace DriverService

/-- **What the index does with an update:** it takes the coordinate at the time of the call, for the
driver, unless the driver has no name or the coordinate is not valid. -/
theorem record_cases (s : DriverService) (now : Timestamp) (driverId : String)
    (latitude longitude : Float) :
    ((driverId.isEmpty = false ∧ Geo.isValid latitude longitude = true) ∧
      s.record now driverId latitude longitude = .ok (⟨latitude, longitude, now⟩,
        { s with index := s.index.place driverId ⟨latitude, longitude, now⟩ })) ∨
    (¬(driverId.isEmpty = false ∧ Geo.isValid latitude longitude = true) ∧
      ∃ e, s.record now driverId latitude longitude = .error e) := by
  unfold DriverService.record Index.update Position.make Geo.validate
  cases hid : driverId.isEmpty with
  | true => exact .inr ⟨(fun h => nomatch h.1), _, rfl⟩
  | false =>
    cases hvalid : Geo.isValid latitude longitude with
    | true => exact .inl ⟨⟨rfl, rfl⟩, rfl⟩
    | false => exact .inr ⟨(fun h => nomatch h.2), _, rfl⟩

/-- What the index has taken of an update. -/
theorem record_eq_ok {s s' : DriverService} {now : Timestamp} {driverId : String}
    {latitude longitude : Float} {position : Position}
    (h : s.record now driverId latitude longitude = .ok (position, s')) :
    position = ⟨latitude, longitude, now⟩ ∧
      s' = { s with index := s.index.place driverId position } := by
  rcases s.record_cases now driverId latitude longitude with ⟨-, hok⟩ | ⟨-, e, herror⟩
  · rw [hok] at h
    cases h
    exact ⟨rfl, rfl⟩
  · rw [herror] at h
    cases h

/-- **What a fix is read as:** its driver, its coordinates as they are read back, and its time. -/
theorem read?_envelope (driverId : String) {position : Position} (h : position.isValid = true)
    (sentAt : Timestamp) : Wire.read? (envelope driverId position sentAt).payload =
      some ({ driverId, position := position.reread } : TrackPoint) := by
  obtain ⟨hlatitude, hlongitude⟩ := Geo.isFinite_of_isValid h
  obtain ⟨q, hq⟩ := Wire.exists_ofJson?_point (q := { driverId, position })
    ⟨⟨hlatitude, hlongitude⟩, show (0 : Float).isFinite = true from rfl, fun _ he => nomatch he⟩
  have hzero : Wire.reread 0 = 0 := by decide +kernel
  have hread := TrackPoint.eq_reread hq
  rw [TrackPoint.reread, hzero] at hread
  rw [envelope, Wire.read?_write, hq, hread]
  rfl

end DriverService

/-- **An update that was accepted.** -/
structure Update where
  driverId : String
  position : Position
  madeAt : Timestamp
  /-- Whether there was room for its fix in the queue. -/
  isQueued : Bool

namespace Update

/-- The fix of an update. -/
def envelope (u : Update) : Envelope := DriverService.envelope u.driverId u.position u.madeAt

/-- What was asked by an update: a driver, a latitude and a longitude. -/
def request (u : Update) : String × Float × Float :=
  (u.driverId, u.position.latitude, u.position.longitude)

end Update

/-- **A fix that the worker has handed to the store.** -/
structure Handover where
  envelope : Envelope
  delivery : Delivery
  /-- Whether a value arrived at the log of the driver that the envelope names. -/
  hasArrived : Bool

/-- How a delivery has ended that the worker settles. -/
def Delivery.ending : Delivery → Forwarder.Ending
  | .accepted => .accepted
  | .refused cause => .refused cause
  | .unanswered | .fatal => .timedOut

theorem Delivery.isAccepted_ending (delivery : Delivery) :
    delivery.ending.isAccepted = decide (delivery = .accepted) := by
  cases delivery <;> rfl

/-- **A driver service on a track store,** and what has become of the updates. -/
structure Pipeline where
  clock : Clock := .start
  service : DriverService
  store : TrackStore
  backend : Faulty := {}
  /-- How the delivery in progress has come out, once the store has been asked. -/
  answer : Option Delivery := none
  /-- The updates that were accepted, oldest first. -/
  updates : List Update := []
  /-- The fixes that were handed to the store, oldest first. -/
  handovers : List Handover := []
  /-- The deliveries that the worker has settled, with their endings, oldest first. -/
  ended : List (Envelope × Forwarder.Ending) := []

namespace Pipeline

/-- A pipeline to which nothing has happened. -/
def new (config : Config) : Pipeline where
  service := {
    requestTimeout := config.requestTimeout
    index := .new config.index
    forwarder := .new config.forwarder }
  store := .new config.trackPolicy

/-- A configuration that is not refused makes the service that the pipeline starts with. -/
theorem service_new {config : Config} {service : DriverService}
    (h : DriverService.new config = .ok service) : (new config).service = service := by
  unfold DriverService.new at h
  cases hvalid : config.validate with
  | error e =>
    rw [hvalid] at h
    cases h
  | ok _ =>
    rw [hvalid] at h
    cases h
    rfl

/-- **What happens to a pipeline.** -/
inductive Event where
  | update (driverId : String) (latitude longitude : Float)
  | remove (driverId : String)
  | sweep
  | advance (step : Duration)
  /-- The idle worker takes the oldest fix from the queue. -/
  | take
  /-- The worker hands the fix that it has taken to the store. -/
  | hand (fates : Nat → Fate)
  /-- The worker counts how the delivery came out; one that is not answered has timed out. -/
  | settle

/-- What an update asks that is accepted: one that names a driver and a valid coordinate. -/
def Event.accepted? : Event → Option (String × Float × Float)
  | .update driverId latitude longitude =>
    if driverId.isEmpty = false ∧ Geo.isValid latitude longitude = true then
      some (driverId, latitude, longitude)
    else none
  | .remove _ | .sweep | .advance _ | .take | .hand _ | .settle => none

/-- The handover of an envelope at the present time, and store and backend after it. -/
def handedOver (p : Pipeline) (fates : Nat → Fate) (e : Envelope) :
    Delivery × TrackStore × Faulty :=
  TrackStore.deliver (Faulty.serve fates) p.clock.timestamp (p.store, p.backend.rewind) e

/-- Whether a backend has more points of a driver than another. -/
def gains (f f' : Faulty) (d : String) : Bool :=
  (f.holding d).arrivals.length < (f'.holding d).arrivals.length

/-- One thing happens. What is not possible has no effect. -/
def next (p : Pipeline) : Event → Pipeline
  | .update driverId latitude longitude =>
    match p.service.record p.clock.timestamp driverId latitude longitude with
    | .error _ => p
    | .ok (position, service) =>
      let fix := DriverService.envelope driverId position p.clock.timestamp
      let isQueued := (service.forwarder.forward fix).1
      { p with
        service := service.forward p.clock.timestamp driverId position
        updates := p.updates ++ [⟨driverId, position, p.clock.timestamp, isQueued⟩] }
  | .remove driverId => { p with service := (p.service.remove driverId).2 }
  | .sweep => { p with service := (p.service.sweep p.clock.timestamp).2 }
  | .advance step => { p with clock := p.clock.advance step }
  | .take =>
    match p.service.forwarder.take? with
    | none => p
    | some (_, forwarder) => { p with service := { p.service with forwarder } }
  | .hand fates =>
    match p.service.forwarder.inDelivery, p.answer with
    | some e, none =>
      let (delivery, store, backend) := p.handedOver fates e
      { p with
        store, backend
        answer := some delivery
        handovers := p.handovers ++ [⟨e, delivery, gains p.backend backend e.driverId⟩] }
    | _, _ => p
  | .settle =>
    match p.answer with
    | none => p
    | some delivery =>
      { p with
        service := { p.service with forwarder := p.service.forwarder.settle (delivery = .accepted) }
        answer := none
        ended := p.ended ++ p.service.forwarder.inDelivery.toList.map (·, delivery.ending) }

/-- Many things happen, one after the other. -/
def after (p : Pipeline) (events : List Event) : Pipeline := events.foldl next p

/-- An update that is accepted takes the service where the service's own operation takes it, and one
that is refused changes nothing. -/
theorem next_update (p : Pipeline) (driverId : String) (latitude longitude : Float) :
    let p' := p.next (.update driverId latitude longitude)
    match p.service.update p.clock.timestamp driverId latitude longitude with
    | .error _ => p' = p
    | .ok service => p'.service = service ∧ p'.updates.length = p.updates.length + 1 := by
  intro p'
  show match p.service.update p.clock.timestamp driverId latitude longitude with
    | .error _ => p.next (.update driverId latitude longitude) = p
    | .ok service => (p.next (.update driverId latitude longitude)).service = service ∧
        (p.next (.update driverId latitude longitude)).updates.length = p.updates.length + 1
  rw [DriverService.update, next]
  cases p.service.record p.clock.timestamp driverId latitude longitude with
  | error e => rfl
  | ok recorded => exact ⟨rfl, List.length_append⟩

/-- **The updates gain the one that is accepted,** with the time of its call. -/
theorem updates_next (p : Pipeline) (event : Event) :
    ∃ latest : List Update, (p.next event).updates = p.updates ++ latest ∧
      latest.map Update.request = event.accepted?.toList ∧
      ∀ u ∈ latest, u.position.isValid = true ∧ u.position.observedAt = u.madeAt := by
  have hnone {p' : Pipeline} (heq : p'.updates = p.updates) :
      ∃ latest : List Update, p'.updates = p.updates ++ latest ∧
        latest.map Update.request = [] ∧
        ∀ u ∈ latest, u.position.isValid = true ∧ u.position.observedAt = u.madeAt :=
    ⟨[], by rw [heq, List.append_nil], rfl, fun _ hu => nomatch hu⟩
  cases event with
  | update driverId latitude longitude =>
    rw [next, Event.accepted?]
    rcases p.service.record_cases p.clock.timestamp driverId latitude longitude with
      ⟨haccepted, hok⟩ | ⟨hrefused, e, herror⟩
    · rw [hok, if_pos haccepted]
      refine ⟨_, rfl, rfl, fun u hu => ?_⟩
      obtain rfl := List.mem_singleton.mp hu
      exact ⟨haccepted.2, rfl⟩
    · rw [herror, if_neg hrefused]
      exact hnone rfl
  | remove driverId => exact hnone rfl
  | sweep => exact hnone rfl
  | advance step => exact hnone rfl
  | take =>
    rw [next]
    split <;> exact hnone rfl
  | hand fates =>
    rw [next]
    split <;> exact hnone rfl
  | settle =>
    rw [next]
    split <;> exact hnone rfl

/-- **The updates are the calls that are accepted,** in the order of the calls. -/
theorem updates_after (p : Pipeline) (events : List Event) :
    ∃ latest : List Update, (p.after events).updates = p.updates ++ latest ∧
      latest.map Update.request = events.filterMap Event.accepted? ∧
      ∀ u ∈ latest, u.position.isValid = true ∧ u.position.observedAt = u.madeAt := by
  induction events generalizing p with
  | nil => exact ⟨[], (List.append_nil _).symm, rfl, fun _ hu => nomatch hu⟩
  | cons event events ih =>
    obtain ⟨first, hfirst, hcall, hsound⟩ := p.updates_next event
    obtain ⟨rest, hrest, hcalls, hsounds⟩ := ih (p.next event)
    refine ⟨first ++ rest, ?_, ?_, fun u hu => ?_⟩
    · rw [← List.append_assoc, ← hfirst]
      exact hrest
    · rw [List.map_append, hcall, hcalls, List.filterMap_cons]
      cases event.accepted? <;> rfl
    · exact (List.mem_append.mp hu).elim (hsound u) (hsounds u)

/-- A delivery that the store has answered is settled as the forwarder concludes it. -/
theorem settle_eq_conclusion (f : Forwarder) {delivery : Delivery}
    (h : delivery = .accepted ∨ ∃ cause, delivery = .refused cause) :
    f.settle (delivery = .accepted) = f.conclusion delivery := by
  rcases h with rfl | ⟨cause, rfl⟩ <;> rfl

/-! ## What is kept -/

/-- The fix that the worker has taken and not yet handed over. -/
def taken (p : Pipeline) : List Envelope :=
  if p.answer.isSome then [] else p.service.forwarder.inDelivery.toList

/-- What has become of the forwarder. -/
def journal (p : Pipeline) : Forwarder.Journal where
  forwarder := p.service.forwarder
  offers := p.updates.map fun u => (u.envelope, u.isQueued)
  handed := p.handovers.map Handover.envelope ++ p.taken
  ended := p.ended

/-- The handovers that brought something to the log of a driver. -/
def entries (p : Pipeline) (d : String) : List Handover :=
  p.handovers.filter fun h => h.hasArrived && h.envelope.driverId = d

/-- The handovers that the store accepted. -/
def acceptances (p : Pipeline) : List Handover :=
  p.handovers.filter fun h => h.delivery = .accepted

/-- **The logs hold what was handed over, and the forwarder has counted it.** -/
structure Faithful (config : Config) (p : Pipeline) : Prop where
  complete : p.journal.Complete config.forwarder
  sound : p.store.Sound config.trackPolicy p.backend
  busy : p.answer.isSome → p.service.forwarder.inDelivery.isSome
  arrivals_eq : ∀ d, (p.backend.holding d).arrivals.reverse.map some =
    (p.entries d).map fun h => h.envelope.stored?
  arrived : ∀ h ∈ p.acceptances, h.hasArrived
  delivered_eq : p.service.forwarder.stats.delivered +
    (if p.answer = some .accepted then 1 else 0) = p.acceptances.length

variable {config : Config} {p : Pipeline}

theorem faithful_new (config : Config) : (new config).Faithful config where
  complete := Forwarder.Journal.complete_new _
  sound := TrackStore.sound_new _
  busy h := nomatch h
  arrivals_eq _ := rfl
  arrived _ h := nomatch h
  delivered_eq := rfl

/-- What touches neither forwarder nor store keeps the pipeline faithful. -/
theorem Faithful.elsewhere (h : p.Faithful config) (clock : Clock) {service : DriverService}
    (hforwarder : service.forwarder = p.service.forwarder) :
    { p with clock, service }.Faithful config where
  complete := by
    have hjournal : { p with clock, service }.journal = p.journal := by
      simp only [journal, taken, hforwarder]
    rw [hjournal]
    exact h.complete
  sound := h.sound
  busy hanswer := by
    show service.forwarder.inDelivery.isSome
    rw [hforwarder]
    exact h.busy hanswer
  arrivals_eq := h.arrivals_eq
  arrived := h.arrived
  delivered_eq := by
    show service.forwarder.stats.delivered + _ = _
    rw [hforwarder]
    exact h.delivered_eq

/-! ## One step after another -/

/-- The index records a position without the forwarder. -/
theorem forwarder_of_record {s s' : DriverService} {now : Timestamp} {driverId : String}
    {latitude longitude : Float} {position : Position}
    (h : s.record now driverId latitude longitude = .ok (position, s')) :
    s'.forwarder = s.forwarder := by
  rw [(DriverService.record_eq_ok h).2]

/-- Forwarding neither disturbs the delivery in progress nor counts one. -/
theorem forward_spares {f : Forwarder} (h : f.Balanced) (e : Envelope) :
    (f.forward e).2.inDelivery = f.inDelivery ∧
      (f.forward e).2.stats.delivered = f.stats.delivered := by
  rcases h.forward_cases e with ⟨-, heq⟩ | ⟨-, heq⟩ <;> rw [heq] <;> exact ⟨rfl, rfl⟩

theorem Faithful.update (h : p.Faithful config) (driverId : String) (latitude longitude : Float) :
    (p.next (.update driverId latitude longitude)).Faithful config := by
  rw [next]
  cases hrecord : p.service.record p.clock.timestamp driverId latitude longitude with
  | error e => exact h
  | ok recorded =>
    obtain ⟨position, service⟩ := recorded
    have hforwarder := forwarder_of_record hrecord
    have hspares := forward_spares h.complete.balanced
      (DriverService.envelope driverId position p.clock.timestamp)
    have hnext := h.complete.next
      (.forward (DriverService.envelope driverId position p.clock.timestamp))
    rw [Forwarder.Journal.next_forward] at hnext
    dsimp only [journal] at hspares hnext
    refine ⟨?_, h.sound, ?_, h.arrivals_eq, h.arrived, ?_⟩
    · -- the record gains the offer, and what was handed over stays
      refine Eq.mp (congrArg (Forwarder.Journal.Complete config.forwarder) ?_) hnext
      simp only [journal, taken, DriverService.forward, List.map_append, List.map_cons,
        List.map_nil, hforwarder, hspares.1]
      rfl
    · intro hanswer
      show (service.forwarder.forward _).2.inDelivery.isSome
      rw [hforwarder, hspares.1]
      exact h.busy hanswer
    · show (service.forwarder.forward _).2.stats.delivered + _ = _
      rw [hforwarder, hspares.2]
      exact h.delivered_eq

theorem Faithful.take (h : p.Faithful config) : (p.next .take).Faithful config := by
  rw [next]
  cases htake : p.service.forwarder.take? with
  | none => exact h
  | some taken =>
    obtain ⟨e, forwarder⟩ := taken
    obtain ⟨hidle, rest, hqueue, hforwarder⟩ := Forwarder.take?_eq_some_iff.mp htake
    -- an idle worker has settled what it handed over
    have hanswer : p.answer = none := by
      cases hsome : p.answer with
      | none => rfl
      | some delivery =>
        have hbusy := h.busy (by rw [hsome]; rfl)
        rw [hidle] at hbusy
        cases hbusy
    subst hforwarder
    refine ⟨?_, h.sound, fun _ => rfl, h.arrivals_eq, h.arrived, h.delivered_eq⟩
    have hnext := h.complete.next .take
    have htake' : p.journal.forwarder.take? = _ := htake
    rw [Forwarder.Journal.next, htake'] at hnext
    refine Eq.mp (congrArg (Forwarder.Journal.Complete config.forwarder) ?_) hnext
    simp [journal, taken, hanswer, hidle]

/-- A point that arrives is one arrival more at its driver's log. -/
theorem length_arrivals_of_gained {f f' : Faulty} {point : TrackPoint}
    (h : f.Gained f' [point]) :
    (f'.holding point.driverId).arrivals.length =
      (f.holding point.driverId).arrivals.length + 1 := by
  rw [h point.driverId]
  simp

/-- **A handover brings its point to the log of the driver that it names,** or nothing to any
log, and only the former is accepted. -/
theorem handover_cases (hsound : p.store.Sound config.trackPolicy p.backend) (fates : Nat → Fate)
    (e : Envelope) {delivery : Delivery} {store : TrackStore} {backend : Faulty}
    (hhanded : p.handedOver fates e = (delivery, store, backend)) :
    store.Sound config.trackPolicy backend ∧
      ((p.backend.Gained backend [] ∧ delivery ≠ .accepted) ∨
        ∃ point, e.stored? = some (Wire.write point) ∧ point.driverId = e.driverId ∧
          p.backend.Gained backend [point]) := by
  have hrun : (TrackStore.Call.deliver e).run (Faulty.serve fates) p.clock.timestamp
      (p.store, p.backend.rewind) = (.delivered e delivery, store, backend) := by
    rw [handedOver] at hhanded
    simp only [TrackStore.Call.run, hhanded]
  have hrewound : p.store.Sound config.trackPolicy p.backend.rewind := hsound.congr fun _ => rfl
  have hspares (d : String) (hd : e.driverId ≠ d) := TrackStore.Call.run_spares (.deliver e) fates
    hd p.clock.timestamp (p.store, p.backend.rewind)
  have hsettled : store.Sound config.trackPolicy backend ∧
      (TrackStore.Call.deliver e).Effect config.trackPolicy (.delivered e delivery)
        p.backend.rewind backend := by
    have heffect := @TrackStore.Sound.run _ fates _ _ hrewound p.clock.timestamp (.deliver e)
    rwa [hrun] at heffect
  obtain ⟨hafter, heffect⟩ := hsettled
  rw [hrun] at hspares
  refine ⟨hafter, ?_⟩
  rcases heffect.gained with hnone | ⟨point, hread, hgained⟩
  · refine .inl ⟨hnone, fun haccepted => ?_⟩
    obtain ⟨point, -, hgained, -⟩ := heffect.accepted (by rw [haccepted]; rfl)
    have hone := length_arrivals_of_gained hgained
    rw [hnone point.driverId] at hone
    simp at hone
  · refine .inr ⟨point, ?_, ?_, hgained⟩
    · rw [Envelope.stored?]
      exact congrArg (Option.map Wire.write) hread
    · -- the driver of the point gains by it, and no other driver than the one named does
      refine Decidable.byContradiction fun hforeign => ?_
      have hkept : (backend.holding point.driverId).arrivals.length =
          (p.backend.holding point.driverId).arrivals.length := by
        rw [(hspares point.driverId (Ne.symm hforeign)).holding_eq]
        rfl
      have hone := length_arrivals_of_gained hgained
      rw [hkept] at hone
      exact Nat.ne_of_lt (Nat.lt_succ_self _) hone

theorem gains_of_none {f f' : Faulty} (h : f.Gained f' []) (d : String) :
    gains f f' d = false := by
  rw [gains, h d]
  exact decide_eq_false (Nat.lt_irrefl _)

theorem gains_of_point {f f' : Faulty} {point : TrackPoint} (h : f.Gained f' [point]) :
    gains f f' point.driverId = true := by
  rw [gains, length_arrivals_of_gained h]
  exact decide_eq_true (Nat.lt_succ_self _)

/-- A handover that joins the end of the handovers. -/
theorem entries_append (p : Pipeline) (x : Handover) (d : String) :
    (p.handovers ++ [x]).filter (fun h => h.hasArrived && h.envelope.driverId = d) =
      p.entries d ++ if x.hasArrived && x.envelope.driverId = d then [x] else [] := by
  rw [List.filter_append, entries]
  cases hx : x.hasArrived && decide (x.envelope.driverId = d) <;> simp [hx]

theorem acceptances_append (p : Pipeline) (x : Handover) :
    (p.handovers ++ [x]).filter (fun h => h.delivery = .accepted) =
      p.acceptances ++ if x.delivery = .accepted then [x] else [] := by
  rw [List.filter_append, acceptances]
  by_cases hx : x.delivery = .accepted <;> simp [hx]

theorem Faithful.hand (h : p.Faithful config) (fates : Nat → Fate) :
    (p.next (.hand fates)).Faithful config := by
  rw [next]
  cases hdelivery : p.service.forwarder.inDelivery with
  | none => exact h
  | some e =>
    cases hanswer : p.answer with
    | some delivery => exact h
    | none =>
      rcases hhanded : p.handedOver fates e with ⟨delivery, store, backend⟩
      dsimp only
      rw [hhanded]
      obtain ⟨hsound, hcases⟩ := handover_cases h.sound fates e hhanded
      have hdelivered := h.delivered_eq
      rw [hanswer] at hdelivered
      let x : Handover := ⟨e, delivery, gains p.backend backend e.driverId⟩
      refine ⟨?_, hsound, fun _ => ?_, fun d => ?_, fun y hy => ?_, ?_⟩
      · -- a fix in the worker's hands becomes a handover, which changes no envelope
        refine Eq.mp (congrArg (Forwarder.Journal.Complete config.forwarder) ?_) h.complete
        simp [journal, taken, hanswer, hdelivery]
      · show p.service.forwarder.inDelivery.isSome
        rw [hdelivery]
        rfl
      · show (backend.holding d).arrivals.reverse.map some =
          ((p.handovers ++ [x]).filter _).map _
        rw [entries_append, List.map_append, ← h.arrivals_eq]
        rcases hcases with ⟨hnone, -⟩ | ⟨point, hstored, hdriver, hgained⟩
        · simp [x, gains_of_none hnone, hnone d]
        · have hgain := gains_of_point hgained
          rw [hdriver] at hgain
          rw [hgained d]
          by_cases hd : e.driverId = d
          · subst hd
            simp [x, hgain, hdriver, hstored]
          · simp [x, hdriver, hd]
      · replace hy : y ∈ (p.handovers ++ [x]).filter fun h => h.delivery = .accepted := hy
        rw [acceptances_append, List.mem_append] at hy
        rcases hy with hy | hy
        · exact h.arrived y hy
        · rcases hcases with ⟨-, hrefused⟩ | ⟨point, -, hdriver, hgained⟩
          · rw [if_neg hrefused] at hy
            cases hy
          · have hgain := gains_of_point hgained
            rw [hdriver] at hgain
            split at hy
            · rw [List.mem_singleton] at hy
              rw [hy]
              exact hgain
            · cases hy
      · show p.service.forwarder.stats.delivered +
          (if some delivery = some .accepted then 1 else 0) = ((p.handovers ++ [x]).filter _).length
        rw [acceptances_append, List.length_append, ← hdelivered]
        by_cases haccepted : delivery = .accepted <;> simp [x, haccepted]

theorem Faithful.settle (h : p.Faithful config) : (p.next .settle).Faithful config := by
  rw [next]
  cases hanswer : p.answer with
  | none => exact h
  | some delivery =>
    have hbusy : p.journal.forwarder.inDelivery.isSome := h.busy (by rw [hanswer]; rfl)
    refine ⟨?_, h.sound, fun h => (nomatch h), h.arrivals_eq, h.arrived, ?_⟩
    · have hnext := h.complete.next (.settle delivery.ending)
      rw [Forwarder.Journal.next, if_pos hbusy, delivery.isAccepted_ending] at hnext
      refine Eq.mp (congrArg (Forwarder.Journal.Complete config.forwarder) ?_) hnext
      simp only [journal, taken, hanswer]
      rfl
    · have hdelivered := h.delivered_eq
      rw [hanswer] at hdelivered
      show (p.service.forwarder.settle _).stats.delivered + 0 = p.acceptances.length
      rw [← hdelivered, Forwarder.delivered_settle]
      simp

/-- **Whatever happens next,** the pipeline stays faithful. -/
theorem Faithful.next (h : p.Faithful config) (event : Event) :
    (p.next event).Faithful config := by
  cases event with
  | update driverId latitude longitude => exact h.update driverId latitude longitude
  | remove driverId => exact h.elsewhere p.clock rfl
  | sweep => exact h.elsewhere p.clock rfl
  | advance step => exact h.elsewhere (p.clock.advance step) rfl
  | take => exact h.take
  | hand fates => exact h.hand fates
  | settle => exact h.settle

theorem Faithful.after (h : p.Faithful config) (events : List Event) :
    (p.after events).Faithful config := by
  induction events generalizing p with
  | nil => exact h
  | cons event events ih => exact ih (h.next event)

/-! ## What the logs hold -/

/-- The updates whose fixes there was room for. -/
def queued (p : Pipeline) : List Update := p.updates.filter Update.isQueued

/-- The accepted updates of a driver. -/
def updatesOf (p : Pipeline) (d : String) : List Update := p.updates.filter fun u => u.driverId = d

theorem journal_accepted (p : Pipeline) : p.journal.accepted = p.queued.map Update.envelope := by
  show ((p.updates.map fun u => (u.envelope, u.isQueued)).filter Prod.snd).map Prod.fst = _
  rw [List.filter_map, List.map_map]
  rfl

/-- The fixes handed over are the first of those that were queued. -/
theorem Faithful.handovers_prefix (h : p.Faithful config) :
    p.handovers.map Handover.envelope <+: p.queued.map Update.envelope := by
  have haccepted := h.complete.accepted_eq
  rw [journal_accepted] at haccepted
  rw [haccepted]
  show _ <+: (p.handovers.map Handover.envelope ++ p.taken) ++ p.service.forwarder.queue
  rw [List.append_assoc]
  exact List.prefix_append _ _

/-- **What is in a driver's log comes from its updates,** from some of those that were queued. -/
theorem Faithful.entries_from_updates (h : p.Faithful config) (d : String) :
    ∃ us : List Update, us.Sublist (p.updatesOf d) ∧ (∀ u ∈ us, u.isQueued) ∧
      us.map Update.envelope = (p.entries d).map Handover.envelope := by
  have hsublist : ((p.entries d).map Handover.envelope).Sublist (p.queued.map Update.envelope) :=
    (List.filter_sublist.map Handover.envelope).trans h.handovers_prefix.sublist
  obtain ⟨us, hus, heq⟩ := List.sublist_map_iff.mp hsublist
  refine ⟨us, ?_, fun u hu => (List.mem_filter.mp (hus.subset hu)).2, heq.symm⟩
  -- an update with the envelope of an entry is one of the same driver
  have hdriver : ∀ u ∈ us, u.driverId = d := by
    intro u hu
    have hmem : u.envelope ∈ (p.entries d).map Handover.envelope :=
      heq ▸ List.mem_map_of_mem hu
    obtain ⟨x, hx, hxu⟩ := List.mem_map.mp hmem
    have hentry : x.hasArrived = true ∧ x.envelope.driverId = d := by
      simpa using (List.mem_filter.mp hx).2
    rw [hxu] at hentry
    exact hentry.2
  rw [← List.filter_eq_self.mpr fun u hu => decide_eq_true (hdriver u hu)]
  exact (hus.trans List.filter_sublist).filter _

/-- A drain that finds nothing pending leaves neither a fix in the queue nor one in delivery. -/
theorem Faithful.handovers_of_drained (h : p.Faithful config) {deadline : Duration}
    (hdrained : p.service.forwarder.drained? p.clock deadline = some 0) :
    p.handovers.map Handover.envelope = p.queued.map Update.envelope ∧
      p.service.forwarder.stats.enqueued =
        p.service.forwarder.stats.delivered + p.service.forwarder.stats.failed := by
  have hpending : p.service.forwarder.pending = 0 := by
    unfold Forwarder.drained? at hdrained
    split at hdrained
    · exact Option.some.inj hdrained
    · cases hdrained
  have hbalanced := h.complete.balanced
  have houtstanding := hbalanced.outstanding_eq
  rw [show p.journal.forwarder.outstanding = 0 from hpending] at houtstanding
  have henqueued := hbalanced.enqueued_eq
  rw [show p.journal.forwarder.outstanding = 0 from hpending] at henqueued
  have hqueue : p.service.forwarder.queue = [] := List.eq_nil_of_length_eq_zero (by
    show p.journal.forwarder.queue.length = 0
    omega)
  have hidle : p.service.forwarder.inDelivery.toList = [] := List.eq_nil_of_length_eq_zero (by
    show p.journal.forwarder.inFlight = 0
    omega)
  have haccepted := h.complete.accepted_eq
  rw [journal_accepted] at haccepted
  refine ⟨?_, henqueued⟩
  rw [haccepted]
  show _ = (p.handovers.map Handover.envelope ++ p.taken) ++ p.service.forwarder.queue
  have htaken : p.taken = [] := by
    rw [taken, hidle]
    exact ite_self _
  rw [htaken, hqueue, List.append_nil, List.append_nil]

/-- **From accepted updates to logs.**  However updates, removals, sweeps, clock, worker and store
interleave, and whatever becomes of the store's requests:

* the points that arrived at a driver's log are in order what the fixes of some of its accepted
  updates hold, each contributing one at most and one without room in the queue none, and the log
  consists of the newest of them;
* these points belong one by one to handovers of the worker; what the store accepted has arrived,
  and is counted as delivered, once, as soon as the worker settles it;
* the worker hands over the first of the queued fixes, in their order;
* the accepted updates are the calls with a driver and a valid coordinate, and the fix of each is
  read as that driver, that coordinate, as floats are read back, and the time of the call;
* every accepted update is counted, as queued or as dropped;
* and when a drain finds nothing pending, every queued fix has been handed over and settled. -/
theorem updates_reach_logs (config : Config) (events : List Event) :
    let p := (new config).after events
    let f := p.service.forwarder
    (∀ d, ∃ us : List Update, us.Sublist (p.updatesOf d) ∧ (∀ u ∈ us, u.isQueued) ∧
      (p.backend.holding d).arrivals.reverse.map some = us.map fun u => u.envelope.stored?) ∧
    (∀ d, (p.backend.holding d).KeepsNewest config.trackPolicy.maxPointsRetained) ∧
    (∀ d, (p.backend.holding d).arrivals.reverse.map some =
      (p.entries d).map fun x => x.envelope.stored?) ∧
    (∀ x ∈ p.acceptances, x.hasArrived) ∧
    f.stats.delivered + (if p.answer = some .accepted then 1 else 0) = p.acceptances.length ∧
    p.handovers.map Handover.envelope <+: p.queued.map Update.envelope ∧
    p.updates.map Update.request = events.filterMap Event.accepted? ∧
    (∀ u ∈ p.updates, u.position.observedAt = u.madeAt ∧ u.envelope.driverId = u.driverId ∧
      Wire.read? u.envelope.payload =
        some ({ driverId := u.driverId, position := u.position.reread } : TrackPoint)) ∧
    p.updates.length = f.stats.enqueued + f.stats.droppedFull ∧
    p.queued.length = f.stats.enqueued ∧
    ∀ deadline, f.drained? p.clock deadline = some 0 →
      p.handovers.map Handover.envelope = p.queued.map Update.envelope ∧
        f.stats.enqueued = f.stats.delivered + f.stats.failed := by
  intro p f
  have h : p.Faithful config := (faithful_new config).after events
  obtain ⟨latest, hupdates, hcalls, hsound⟩ := (new config).updates_after events
  obtain rfl : p.updates = latest := hupdates
  refine ⟨fun d => ?_, fun d => (h.sound.inStep d).keepsNewest, h.arrivals_eq, h.arrived,
    h.delivered_eq, h.handovers_prefix, ?_, fun u hu => ?_, ?_, ?_,
    fun deadline => h.handovers_of_drained⟩
  · obtain ⟨us, hus, hqueued, heq⟩ := h.entries_from_updates d
    refine ⟨us, hus, hqueued, ?_⟩
    have hstored := congrArg (List.map Envelope.stored?) heq
    rw [List.map_map, List.map_map] at hstored
    exact (h.arrivals_eq d).trans hstored.symm
  · exact hcalls
  · obtain ⟨hvalid, htime⟩ := hsound u hu
    exact ⟨htime, rfl, DriverService.read?_envelope u.driverId hvalid u.madeAt⟩
  · have hoffers := h.complete.length_offers
    rwa [show p.journal.offers.length = p.updates.length from List.length_map _] at hoffers
  · have hlength := h.complete.length_accepted
    rwa [journal_accepted, List.length_map] at hlength

end Pipeline

end Fleet
