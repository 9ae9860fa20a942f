import Fleet.Proofs.Store.Unfailing
import Fleet.Proofs.Index.Consistency
import Fleet.Proofs.Service.Pipeline
import Fleet.Node.Handle

/-!
# A node from moment to moment

Lines are handled while the worker of the forwarder goes about its deliveries, one step at a time:
it takes a fix from the queue, the store takes it in, and the worker counts how that came out.  In
between stale drivers are dropped and time passes.  `Sound` holds at every moment of a node whose
backend never fails: the index is consistent, and what is stored can be read back (`Sound.after`).
-/

namespace Fleet

/-! ## What a forwarder carries -/

namespace Forwarder

/-- The envelopes that the worker still has to deliver. -/
def carried (f : Forwarder) : List Envelope := f.inDelivery.toList ++ f.queue

variable {f : Forwarder} {e : Envelope}

/-- Whoever is carried after an envelope was offered was carried before, or is that envelope. -/
theorem mem_carried_forward {e' : Envelope} (h : e' ∈ (f.forward e).2.carried) :
    e' ∈ f.carried ∨ e' = e := by
  have htally (g : Forwarder) (a : Admission) : (g.conclude a).carried = g.carried := by
    cases a <;> rfl
  have hoffer : (f.forward e).2.carried = (f.announce.offer e).2.carried := htally _ _
  rw [hoffer, offer] at h
  split at h
  · exact .inl h
  · split at h
    · have hcarried : e' ∈ f.carried ++ [e] := by simpa [carried, announce] using h
      simpa using hcarried
    · exact .inl h

theorem carried_take {f' : Forwarder} (h : f.take? = some (e, f')) : f'.carried = f.carried := by
  obtain ⟨hidle, rest, hqueue, rfl⟩ := take?_eq_some_iff.mp h
  simp [carried, hidle, hqueue]

theorem mem_carried_conclusion {delivery : Delivery}
    (h : e ∈ (f.conclusion delivery).carried) : e ∈ f.carried := by
  have hsettle (wasAccepted : Bool) (h : e ∈ (f.settle wasAccepted).carried) : e ∈ f.carried := by
    cases wasAccepted <;> exact List.mem_append_right _ h
  cases delivery with
  | accepted => exact hsettle true h
  | refused cause => exact hsettle false h
  | unanswered => exact h
  | fatal => cases h

end Forwarder

namespace Node

/-- The node that a configuration makes on some storage, with some functions of angles. -/
def fresh (config : Config) (storage : Storage) (t : Trigonometry) : Node where
  clock := .start
  service := {
    requestTimeout := config.requestTimeout
    index := .new config.index t
    forwarder := .new config.forwarder }
  depot := { store := .new (config.trackPolicy t), backend := { storage } }

/-- A configuration makes a node if it has no fault. -/
theorem new_eq (config : Config) (storage : Storage) (t : Trigonometry) :
    Node.new config storage t =
      match config.fault? with
      | some fault => .error (.invalidConfig fault)
      | none => .ok (fresh config storage t) := by
  unfold Node.new DriverService.new Config.validate
  cases config.fault? <;> rfl

theorem new_eq_ok {config : Config} {storage : Storage} {t : Trigonometry} {n : Node}
    (h : Node.new config storage t = .ok n) :
    config.fault? = none ∧ n = fresh config storage t := by
  rw [new_eq] at h
  cases hfault : config.fault? with
  | some fault =>
    rw [hfault] at h
    cases h
  | none =>
    rw [hfault] at h
    exact ⟨rfl, (Except.ok.inj h).symm⟩

/-- **What an accepted update does:** the index takes the position, and its fix is forwarded. -/
theorem update_eq_ok {n n' : Node} {driverId : String} {latitude longitude : Float}
    (h : n.update driverId latitude longitude = .ok n') :
    let position : Position := ⟨latitude, longitude, n.now⟩
    let fix := DriverService.envelope driverId position n.now
    n' = { n with service := { n.service with
      index := n.service.index.place driverId position
      forwarder := (n.service.forwarder.forward fix).2 } } := by
  unfold update DriverService.update at h
  cases hrecord : n.service.record n.now driverId latitude longitude with
  | error e =>
    rw [hrecord] at h
    cases h
  | ok recorded =>
    obtain ⟨position, service⟩ := recorded
    rw [hrecord] at h
    obtain ⟨rfl, rfl⟩ := DriverService.record_eq_ok hrecord
    cases h
    rfl

/-! ## Moments -/

/-- **A moment of a node at work.** -/
structure Moment where
  node : Node
  /-- How the delivery in progress came out, once the store has been asked. -/
  answer : Option Delivery := none

/-- **What happens to a node at work.** -/
inductive Happening where
  | line (line : Bytes)
  | sweep
  | advance (step : Duration)
  /-- The idle worker takes the oldest fix from the queue. -/
  | take
  /-- The store takes in the fix that the worker has taken. -/
  | hand
  /-- The worker counts how the delivery came out. -/
  | settle

/-- The point that comes to the store from a command at the time `now`, at once or by the worker:
one that is ingested, or the fix of an update. -/
def Command.fix? (now : Timestamp) : Command → Option TrackPoint
  | .ingest point => some point
  | .update driverId latitude longitude =>
    Wire.read? (DriverService.envelope driverId ⟨latitude, longitude, now⟩ now).payload
  | _ => none

namespace Moment

/-- One thing happens.  What is not possible has no effect. -/
def next (m : Moment) : Happening → Moment
  | .line line => { m with node := (m.node.handle line).2 }
  | .sweep => { m with node := m.node.sweep.2 }
  | .advance step => { m with node := m.node.advance step }
  | .take =>
    match m.node.service.forwarder.take? with
    | none => m
    | some (_, forwarder) => { m with node.service.forwarder := forwarder }
  | .hand =>
    match m.node.service.forwarder.inDelivery, m.answer with
    | some e, none =>
      let (delivery, depot) := Depot.deliver m.node.clock m.node.depot e
      { node := { m.node with depot }, answer := some delivery }
    | _, _ => m
  | .settle =>
    match m.answer with
    | none => m
    | some delivery =>
      { node := { m.node with
          service.forwarder := m.node.service.forwarder.conclusion delivery } }

/-- The reply to a line. -/
def reply? (m : Moment) : Happening → Option Reply
  | .line line => some (m.node.handle line).1
  | _ => none

/-- The point that comes to the store from a line. -/
def fix? (m : Moment) : Happening → Option TrackPoint
  | .line line => (Command.read? line).bind (Command.fix? m.node.now)
  | _ => none

/-- Many things happen, one after the other. -/
def after (m : Moment) (happenings : List Happening) : Moment := happenings.foldl next m

/-- What is noted of each of the happenings of a run, where there is something to note. -/
def along {α : Type} (note? : Moment → Happening → Option α) (m : Moment) :
    List Happening → List α
  | [] => []
  | h :: happenings => (note? m h).toList ++ (m.next h).along note? happenings

/-- The replies to the lines of a run. -/
def replies (m : Moment) : List Happening → List Reply := m.along reply?

/-- The points that come to the store from the lines of a run. -/
def fixes (m : Moment) : List Happening → List TrackPoint := m.along fix?

theorem along_append {α : Type} (note? : Moment → Happening → Option α) (m : Moment)
    (happenings later : List Happening) : m.along note? (happenings ++ later) =
      m.along note? happenings ++ (m.after happenings).along note? later := by
  induction happenings generalizing m with
  | nil => rfl
  | cons h happenings ih =>
    rw [List.cons_append, along, ih, along, List.append_assoc]
    rfl

/-- What is noted of a run was noted at one of its moments. -/
theorem exists_of_mem_along {α : Type} {note? : Moment → Happening → Option α} {m : Moment}
    {happenings : List Happening} {a : α} (h : a ∈ m.along note? happenings) :
    ∃ m' happening, note? m' happening = some a := by
  induction happenings generalizing m with
  | nil => cases h
  | cons happening happenings ih =>
    rcases List.mem_append.mp h with h | h
    · exact ⟨m, happening, Option.mem_toList.mp h⟩
    · exact ih h

/-- **The three steps of a delivery are one turn of the worker.** -/
theorem after_delivery {n : Node} (hidle : n.service.forwarder.inDelivery = none)
    (hrunning : n.depot.backend.stalled = false) :
    ({ node := n } : Moment).after [.take, .hand, .settle] = { node := n.turn 1 } := by
  have hturn : n.turn 1 =
      { n with
        service := (n.service.turn 1 (Depot.deliver n.clock) n.depot).1
        depot := (n.service.turn 1 (Depot.deliver n.clock) n.depot).2 } := by
    rw [turn, if_neg (by simp [hrunning])]
  rw [hturn]
  simp only [DriverService.turn, Forwarder.rounds, Forwarder.step?, after, List.foldl_cons,
    List.foldl_nil]
  cases htake : n.service.forwarder.take? with
  | none => simp [next, htake, hidle]
  | some taken =>
    obtain ⟨e, forwarder⟩ := taken
    obtain ⟨-, rest, -, rfl⟩ := Forwarder.take?_eq_some_iff.mp htake
    simp [next, htake]

/-! ## What is kept -/

/-- **A moment is sound** if the index is consistent, and all that is stored or on its way there
are some points and readable analyses of them. -/
structure Sound (p : TrackPolicy) (points : List TrackPoint) (m : Moment) : Prop where
  consistent : m.node.service.index.Consistent
  holds : m.node.depot.Holds p points
  carried : ∀ e ∈ m.node.service.forwarder.carried, ∀ q : TrackPoint,
    Wire.read? e.payload = some q → q.isAcceptable = true → q ∈ points

variable {p : TrackPolicy} {points : List TrackPoint}

/-- A node that was just made is sound. -/
theorem sound_new {config : Config} {t : Trigonometry} {n : Node}
    (h : Node.new config (.memory {}) t = .ok n) :
    Sound (config.trackPolicy t) points { node := n } := by
  obtain ⟨-, rfl⟩ := new_eq_ok h
  exact
    { consistent := Index.consistent_new config.index t
      holds := Depot.holds_new _ _
      carried := fun _ he => nomatch he }

namespace Sound

variable {m : Moment} (h : m.Sound p points)
include h

/-- What leaves the forwarder alone. -/
theorem withIndex {index : Index} (hindex : index.Consistent) :
    { m with node.service.index := index }.Sound p points :=
  ⟨hindex, h.holds, h.carried⟩

theorem withDepot {depot : Depot} (hdepot : depot.Holds p points) (answer : Option Delivery) :
    Sound p points { node := { m.node with depot }, answer } :=
  ⟨h.consistent, hdepot, h.carried⟩

theorem withForwarder {forwarder : Forwarder}
    (hcarried : ∀ e ∈ forwarder.carried, e ∈ m.node.service.forwarder.carried)
    (answer : Option Delivery) :
    Sound p points { node := { m.node with service.forwarder := forwarder }, answer } :=
  ⟨h.consistent, h.holds, fun e he => h.carried e (hcarried e he)⟩

theorem sweep : (m.next .sweep).Sound p points :=
  h.withIndex (h.consistent.run (.sweepStale m.node.now))

theorem take : (m.next .take).Sound p points := by
  rw [next]
  cases htake : m.node.service.forwarder.take? with
  | none => exact h
  | some taken =>
    exact h.withForwarder (fun e he => Forwarder.carried_take htake ▸ he) m.answer

theorem settle : (m.next .settle).Sound p points := by
  rw [next]
  cases m.answer with
  | none => exact h
  | some delivery =>
    exact h.withForwarder (fun e he => Forwarder.mem_carried_conclusion he) none

variable (hp : ∀ d, p.Legible d points)
include hp

/-- **The store takes in what the worker has taken.** -/
theorem hand : (m.next .hand).Sound p points := by
  rw [next]
  split
  · rename_i e hdelivery _
    have hcarried : e ∈ m.node.service.forwarder.carried := by
      rw [Forwarder.carried, hdelivery]
      exact List.mem_cons_self
    exact h.withDepot (h.holds.run hp m.node.clock (.deliver e) (h.carried e hcarried)) _
  · exact h

/-- **A command that brings one of the points to the store,** or none, keeps a moment sound. -/
theorem execute {command : Command}
    (hfix : ∀ q, command.fix? m.node.now = some q → q.isAcceptable = true → q ∈ points) :
    Sound p points { m with node := (m.node.execute command).2 } := by
  cases command with
  | update driverId latitude longitude =>
    show Sound p points { m with node := (m.node.execute (.update driverId latitude longitude)).2 }
    rw [Node.execute]
    cases hupdate : m.node.update driverId latitude longitude with
    | error e => exact h
    | ok n =>
      obtain rfl := update_eq_ok hupdate
      refine ⟨h.consistent.place driverId _, h.holds, fun e he => ?_⟩
      rcases Forwarder.mem_carried_forward he with he | rfl
      · exact h.carried e he
      · exact hfix
  | nearby latitude longitude limit =>
    exact h.withIndex (h.consistent.run (.nearest latitude longitude limit))
  | locate driverId => exact h
  | remove driverId => exact h.withIndex (h.consistent.run (.remove driverId))
  | ingest point =>
    exact h.withDepot (h.holds.run hp m.node.clock (.ingest point.driverId point none)
      fun q hq => hfix q hq) m.answer
  | track driverId count =>
    exact h.withDepot (h.holds.run hp m.node.clock (.analyzed driverId count none)
      fun q hq => nomatch hq) m.answer
  | stats => exact h

theorem line {line : Bytes}
    (hfix : ∀ q, m.fix? (.line line) = some q → q.isAcceptable = true → q ∈ points) :
    (m.next (.line line)).Sound p points := by
  show Sound p points { m with node := (m.node.handle line).2 }
  rw [handle]
  cases hread : Command.read? line with
  | none => exact h
  | some command =>
    refine h.execute hp fun q hq => hfix q ?_
    rw [fix?, hread]
    exact hq

/-- **Whatever happens, a moment stays sound.** -/
theorem next {happening : Happening}
    (hfix : ∀ q, m.fix? happening = some q → q.isAcceptable = true → q ∈ points) :
    (m.next happening).Sound p points := by
  cases happening with
  | line line => exact h.line hp hfix
  | sweep => exact h.sweep
  | advance step => exact ⟨h.consistent, h.holds, h.carried⟩
  | take => exact h.take
  | hand => exact h.hand hp
  | settle => exact h.settle

/-- **All moments of a run are sound,** if the points that come to the store are as they should
be. -/
theorem after {happenings : List Happening}
    (hfixes : ∀ q ∈ m.fixes happenings, q.isAcceptable = true → q ∈ points) :
    (m.after happenings).Sound p points := by
  induction happenings generalizing m with
  | nil => exact h
  | cons happening happenings ih =>
    obtain ⟨hfirst, hrest⟩ := List.forall_mem_append.mp hfixes
    exact ih (h.next hp fun q hq => hfirst q (Option.mem_toList.mpr hq)) hrest

end Sound

/-! ## Points that come to the store are finite -/

/-- The point of a command was read from one of its arguments. -/
theorem exists_of_ofArguments? {op : String} {arguments : Json} {point : TrackPoint}
    (h : Command.ofArguments? op arguments = some (.ingest point)) :
    ∃ j, Wire.ofJson? j = some point := by
  unfold Command.ofArguments? at h
  split at h
  case h_5 =>
    split at h
    · simp only [Option.bind_eq_bind, Option.bind_eq_some_iff, Option.pure_def,
        Option.some.injEq] at h
      obtain ⟨q, hq, heq⟩ := h
      cases heq
      exact Wire.exists_of_required hq
    · cases h
  case h_8 => cases h
  -- no other command has a point
  all_goals
    split at h
    · simp [Option.bind_eq_some_iff] at h
    · cases h

/-- **What comes to the store is finite,** for it was read. -/
theorem isFinite_of_fix? {m : Moment} {happening : Happening} {q : TrackPoint}
    (h : m.fix? happening = some q) : q.IsFinite := by
  cases happening with
  | line line =>
    obtain ⟨command, hread, hfix⟩ := Option.bind_eq_some_iff.mp h
    cases command with
    | ingest point =>
      obtain rfl : point = q := Option.some.inj hfix
      simp only [Command.read?, Option.bind_eq_bind, Option.bind_eq_some_iff] at hread
      obtain ⟨value, -, ⟨op, arguments⟩, -, hcommand⟩ := hread
      obtain ⟨j, hj⟩ := exists_of_ofArguments? hcommand
      exact Wire.isFinite_point_of_ofJson? hj
    | update driverId latitude longitude =>
      obtain ⟨j, -, hj⟩ := Option.bind_eq_some_iff.mp hfix
      exact Wire.isFinite_point_of_ofJson? hj
    | nearby | locate | remove | track | stats => cases hfix
  | sweep | advance | take | hand | settle => cases h

end Moment

end Node

end Fleet
