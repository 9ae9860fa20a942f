import Fleet.Proofs.Index.Consistency
import Fleet.Proofs.Service.Pipeline

/-!
# Updates that go on at the same time

Any number of updates, of one driver or of many, as one machine that takes a step of one of them
after another, in any order.  An update reads the clock, has the index take its position, and offers
its fix to the queue; these are three steps, and others may come between them.  So a fix can
overtake another, and the last one queued need not be the one that the index shows
(`last_fix_differs`).

`Accounted` is what every step keeps: a position that the index took is offered once or still
between the two steps, and it is offered before another one of its driver if its update was through
when the other came to the index.  A driver that waits for its answers has one update at a time
(`OneAtATime`), and none of its fixes is overtaken.  Main statement: `fixes_in_order`.
-/

namespace Fleet

namespace Rush

/-- **A position that the index has taken.** -/
structure Entry where
  /-- The number of the call that brought it. -/
  number : Nat
  driverId : String
  position : Position
  /-- The calls on the driver that had not offered their fixes when the index took the position,
  though it had taken theirs. -/
  awaited : List Nat
deriving DecidableEq

/-- **A fix that was offered to the queue.** -/
structure Offer where
  entry : Entry
  sentAt : Timestamp
  /-- Whether there was room for it. -/
  isQueued : Bool

/-- The fix of an offer. -/
def Offer.envelope (o : Offer) : Envelope :=
  DriverService.envelope o.entry.driverId o.entry.position o.sentAt

/-- **Where an update stands.** -/
inductive Standing where
  | asked
  /-- It has read the clock. -/
  | stamped (now : Timestamp)
  /-- The index has taken its position, and it has not offered its fix. -/
  | recorded (entry : Entry)
  | answered (result : Except FleetError Unit)

/-- What an update has in the index and not in the queue. -/
def Standing.entry? : Standing → Option Entry
  | .recorded entry => some entry
  | _ => none

/-- Whether an update is over. -/
def Standing.isAnswered : Standing → Bool
  | .answered _ => true
  | _ => false

/-- Whether the index has taken the position of an update. -/
def Standing.hasWritten : Standing → Bool
  | .recorded _ => true
  | .answered (.ok _) => true
  | _ => false

/-- An update and where it stands. -/
structure Call where
  driverId : String
  latitude : Float
  longitude : Float
  standing : Standing := .asked

/-- What happens while updates go on. -/
inductive Event where
  | ask (driverId : String) (latitude longitude : Float)
  /-- The update of a number takes its next step. -/
  | step (number : Nat)
  /-- An update that waits for the index has run out of time. -/
  | expire (number : Nat)
  | advance (step : Duration)
  /-- The idle worker takes the oldest fix from the queue. -/
  | take
  /-- The worker settles the fix that it has taken. -/
  | settle (ending : Forwarder.Ending)

end Rush

open Rush in
/-- **Updates that share a service,** and what has become of them. -/
structure Rush where
  clock : Clock := .start
  service : DriverService
  /-- The updates in the order in which they came. -/
  calls : List Call := []
  /-- What the index took, oldest first. -/
  writes : List Entry := []
  /-- What was offered to the queue, oldest first. -/
  offers : List Offer := []
  /-- What the worker took from the queue, oldest first. -/
  handed : List Envelope := []
  /-- The deliveries that are over, with their endings, oldest first. -/
  ended : List (Envelope × Forwarder.Ending) := []

namespace Rush

/-- A service of which nothing was asked. -/
def new (config : Config) : Rush where
  service := (Pipeline.new config).service

/-- What some updates have in the index and not in the queue. -/
def entries (calls : List Call) : List Entry := calls.filterMap fun c => c.standing.entry?

/-- The positions that the index has taken and whose fixes were not offered. -/
def between (p : Rush) : List Entry := entries p.calls

/-- The positions whose fixes were offered, in the order of the offers. -/
def offered (p : Rush) : List Entry := p.offers.map Offer.entry

/-- The part of a list of positions that is a driver's. -/
def of (d : String) (entries : List Entry) : List Entry := entries.filter fun e => e.driverId = d

@[simp]
theorem of_append (d : String) (xs ys : List Entry) : of d (xs ++ ys) = of d xs ++ of d ys :=
  List.filter_append ..

theorem of_singleton (d : String) (e : Entry) : of d [e] = if e.driverId = d then [e] else [] := by
  by_cases he : e.driverId = d <;> simp [of, he]

theorem mem_of {d : String} {e : Entry} {xs : List Entry} :
    e ∈ of d xs ↔ e ∈ xs ∧ e.driverId = d := by
  simp [of]

/-- An update comes to stand elsewhere. -/
def put (p : Rush) (number : Nat) (c : Call) (standing : Standing) : Rush :=
  { p with calls := p.calls.set number { c with standing } }

/-- What the index takes of an update, with the calls that it overlaps. -/
def entry (p : Rush) (number : Nat) (c : Call) (position : Position) : Entry where
  number; position
  driverId := c.driverId
  awaited := (of c.driverId p.between).map Entry.number

/-- The index has taken the position of an update. -/
def taken (p : Rush) (number : Nat) (c : Call) (position : Position) (service : DriverService) :
    Rush :=
  let entry := p.entry number c position
  { p.put number c (.recorded entry) with service, writes := p.writes ++ [entry] }

/-- The index takes the position of an update that has read the clock, or refuses it. -/
def record (p : Rush) (number : Nat) (c : Call) (now : Timestamp) : Rush :=
  match p.service.record now c.driverId c.latitude c.longitude with
  | .error e => p.put number c (.answered (.error e))
  | .ok (position, service) => p.taken number c position service

/-- An update offers its fix to the queue. -/
def offer (p : Rush) (number : Nat) (c : Call) (entry : Entry) : Rush :=
  let now := p.clock.timestamp
  let fix := DriverService.envelope entry.driverId entry.position now
  { p.put number c (.answered (.ok ())) with
    service := p.service.forward now entry.driverId entry.position
    offers := p.offers ++ [⟨entry, now, (p.service.forwarder.forward fix).1⟩] }

/-- **An update takes its next step.** -/
def step (p : Rush) (number : Nat) (c : Call) : Rush :=
  match c.standing with
  | .asked => p.put number c (.stamped p.clock.timestamp)
  | .stamped now => p.record number c now
  | .recorded entry => p.offer number c entry
  | .answered _ => p

/-- An update is given up if the index has not taken its position. -/
def expire (p : Rush) (number : Nat) (c : Call) : Rush :=
  match c.standing with
  | .stamped _ => p.put number c (.answered (.error (.timedOut p.service.requestTimeout)))
  | _ => p

/-- One thing happens.  What is not possible has no effect. -/
def next (p : Rush) : Event → Rush
  | .ask driverId latitude longitude =>
    { p with calls := p.calls ++ [{ driverId, latitude, longitude }] }
  | .step number => p.calls[number]?.elim p (p.step number)
  | .expire number => p.calls[number]?.elim p (p.expire number)
  | .advance step => { p with clock := p.clock.advance step }
  | .take =>
    match p.service.forwarder.take? with
    | none => p
    | some (e, forwarder) => { p with service.forwarder := forwarder, handed := p.handed ++ [e] }
  | .settle ending =>
    if p.service.forwarder.inDelivery.isSome then
      { p with
        service.forwarder := p.service.forwarder.settle ending.isAccepted
        ended := p.ended ++ p.service.forwarder.inDelivery.toList.map (·, ending) }
    else p

/-- Many things happen, one after the other. -/
def after (p : Rush) (events : List Event) : Rush := events.foldl next p

end Rush

/-! ## One step -/

namespace Rush

theorem next_step {p : Rush} {number : Nat} {c : Call} (hc : p.calls[number]? = some c) :
    p.next (.step number) = p.step number c := by
  rw [next, hc]
  rfl

theorem step_stamped {p : Rush} {number : Nat} {c : Call} {now : Timestamp}
    (hc : c.standing = .stamped now) : p.step number c = p.record number c now := by
  rw [step, hc]

theorem step_recorded {p : Rush} {number : Nat} {c : Call} {entry : Entry}
    (hc : c.standing = .recorded entry) : p.step number c = p.offer number c entry := by
  rw [step, hc]

theorem record_error {p : Rush} {number : Nat} {c : Call} {now : Timestamp} {e : FleetError}
    (h : p.service.record now c.driverId c.latitude c.longitude = .error e) :
    p.record number c now = p.put number c (.answered (.error e)) := by
  rw [record, h]

theorem record_ok {p : Rush} {number : Nat} {c : Call} {now : Timestamp} {position : Position}
    {service : DriverService}
    (h : p.service.record now c.driverId c.latitude c.longitude = .ok (position, service)) :
    p.record number c now = p.taken number c position service := by
  rw [record, h]

theorem get?_put {p : Rush} {number : Nat} {c : Call} (hc : p.calls[number]? = some c)
    (standing : Standing) : (p.put number c standing).calls[number]? = some { c with standing } :=
  List.getElem?_set_self (List.getElem?_eq_some_iff.mp hc).1

/-- **An update that nothing comes between** leaves the service as the service's own update does,
and is answered the same. -/
theorem step_alone (p : Rush) (number : Nat) (c : Call) (hc : p.calls[number]? = some c)
    (hasked : c.standing = .asked) :
    let p' := ((p.next (.step number)).next (.step number)).next (.step number)
    match p.service.update p.clock.timestamp c.driverId c.latitude c.longitude with
    | .error e => p'.service = p.service ∧
        p'.calls[number]? = some { c with standing := .answered (.error e) }
    | .ok service => p'.service = service ∧
        p'.calls[number]? = some { c with standing := .answered (.ok ()) } := by
  intro p'
  let c₁ : Call := { c with standing := .stamped p.clock.timestamp }
  let p₁ := p.put number c (.stamped p.clock.timestamp)
  have hc₁ : p₁.calls[number]? = some c₁ := get?_put hc _
  have hstamped : p.next (.step number) = p₁ := by
    rw [next_step hc, step, hasked]
  have hp' : p' = (p₁.record number c₁ p.clock.timestamp).next (.step number) := by
    show ((p.next (.step number)).next (.step number)).next (.step number) = _
    rw [hstamped, next_step hc₁, step_stamped rfl]
  cases hrecord : p.service.record p.clock.timestamp c.driverId c.latitude c.longitude with
  | error e =>
    have hc₂ := get?_put hc₁ (.answered (.error e))
    rw [record_error (p := p₁) (c := c₁) hrecord, next_step hc₂] at hp'
    rw [DriverService.update, hrecord, hp']
    exact ⟨rfl, hc₂⟩
  | ok recorded =>
    obtain ⟨position, service⟩ := recorded
    have hc₂ : (p₁.taken number c₁ position service).calls[number]? = some _ := get?_put hc₁ _
    rw [record_ok (p := p₁) (c := c₁) hrecord, next_step hc₂, step_recorded rfl] at hp'
    rw [DriverService.update, hrecord, hp']
    exact ⟨rfl, get?_put hc₂ (.answered (.ok ()))⟩

/-! ## What is kept -/

/-- The updates while one of them comes to stand elsewhere. -/
theorem exists_calls {p : Rush} {number : Nat} {c : Call} (hc : p.calls[number]? = some c) :
    ∃ before later, p.calls = before ++ c :: later ∧
      ∀ standing, (p.put number c standing).calls = before ++ { c with standing } :: later := by
  obtain ⟨hlt, hget⟩ := List.getElem?_eq_some_iff.mp hc
  refine ⟨p.calls.take number, p.calls.drop (number + 1), ?_, fun standing => ?_⟩
  · rw [← hget, List.getElem_cons_drop, List.take_append_drop]
  · rw [put, List.set_eq_take_append_cons_drop, if_pos hlt]

/-- What stands between index and queue meanwhile. -/
theorem exists_between {p : Rush} {number : Nat} {c : Call} (hc : p.calls[number]? = some c) :
    ∃ before later, p.between = before ++ c.standing.entry?.toList ++ later ∧
      ∀ standing, (p.put number c standing).between =
        before ++ standing.entry?.toList ++ later := by
  obtain ⟨before, later, hcalls, hput⟩ := exists_calls hc
  have hentries : ∀ c : Call, entries (before ++ c :: later) =
      entries before ++ c.standing.entry?.toList ++ entries later := by
    intro c
    rw [entries, List.filterMap_append, List.filterMap_cons]
    cases c.standing.entry? <;> simp [entries]
  refine ⟨entries before, entries later, ?_, fun standing => ?_⟩
  · rw [between, hcalls]
    exact hentries c
  · rw [between, hput]
    exact hentries { c with standing }

/-- What has become of the forwarder. -/
def journal (p : Rush) : Forwarder.Journal where
  forwarder := p.service.forwarder
  offers := p.offers.map fun o => (o.envelope, o.isQueued)
  handed := p.handed
  ended := p.ended

/-- **Index and queue have what the updates brought them.** -/
structure Accounted (config : Config) (p : Rush) : Prop where
  complete : p.journal.Complete config.forwarder
  lookup_eq : ∀ d, p.service.index.lookup d = (of d p.writes).getLast?.map Entry.position
  told : ∀ e ∈ p.writes, ∃ c, p.calls[e.number]? = some c ∧ c.standing.hasWritten
  nodup : (p.writes.map Entry.number).Nodup
  perm : p.writes.Perm (p.offered ++ p.between)
  ordered : p.writes.Pairwise fun a b => a.driverId = b.driverId → a.number ∉ b.awaited →
    a ∈ p.offered ∧ (b ∈ p.offered → [a, b].Sublist p.offered)
  calm : ∀ d, (∀ e ∈ of d p.writes, e.awaited = []) →
    of d p.writes = of d p.offered ++ of d p.between ∧ (of d p.between).length ≤ 1

theorem accounted_new (config : Config) : (new config).Accounted config where
  complete := Forwarder.Journal.complete_new _
  lookup_eq _ := rfl
  told _ h := by cases h
  nodup := .nil
  perm := .nil
  ordered := .nil
  calm _ _ := ⟨rfl, Nat.zero_le _⟩

section Events

variable {config : Config} {p : Rush} (h : p.Accounted config)
include h

theorem Accounted.ask (driverId : String) (latitude longitude : Float) :
    (p.next (.ask driverId latitude longitude)).Accounted config := by
  have hbetween : (p.next (.ask driverId latitude longitude)).between = p.between := by
    show entries (p.calls ++ _) = entries p.calls
    simp [entries, Standing.entry?]
  refine { h with told := fun e he => ?_, perm := ?_, calm := ?_ }
  · obtain ⟨c, hc, hwritten⟩ := h.told e he
    exact ⟨c, List.getElem?_append_left (List.getElem?_eq_some_iff.mp hc).1 ▸ hc, hwritten⟩
  · rw [hbetween]
    exact h.perm
  · rw [hbetween]
    exact h.calm

/-- What the worker does concerns the forwarder alone. -/
theorem Accounted.work (event : Forwarder.Event) {forwarder : Forwarder} {handed : List Envelope}
    {ended : List (Envelope × Forwarder.Ending)}
    (hjournal : { p with service.forwarder := forwarder, handed, ended }.journal =
      p.journal.next event) :
    { p with service.forwarder := forwarder, handed, ended }.Accounted config :=
  { h with complete := hjournal ▸ h.complete.next event }

theorem Accounted.take : (p.next .take).Accounted config := by
  rw [next]
  cases htake : p.service.forwarder.take? with
  | none => exact h
  | some taken =>
    refine h.work .take ?_
    have htake' : p.journal.forwarder.take? = some taken := htake
    rw [Forwarder.Journal.next, htake']
    rfl

theorem Accounted.settle (ending : Forwarder.Ending) :
    (p.next (.settle ending)).Accounted config := by
  rw [next]
  split
  · rename_i hbusy
    refine h.work (.settle ending) ?_
    have hbusy' : p.journal.forwarder.inDelivery.isSome := hbusy
    rw [Forwarder.Journal.next, if_pos hbusy']
    rfl
  · exact h

/-- **Nothing of a calm driver is overtaken** when the index takes its next position: nothing else
of the driver is between index and queue. -/
theorem Accounted.calm_taken (number : Nat) (c : Call) (position : Position)
    {before later : List Entry} (hbetween : p.between = before ++ later) :
    let e := p.entry number c position
    ∀ d, (∀ e' ∈ of d (p.writes ++ [e]), e'.awaited = []) →
      of d (p.writes ++ [e]) = of d p.offered ++ of d (before ++ [e] ++ later) ∧
        (of d (before ++ [e] ++ later)).length ≤ 1 := by
  intro e d hcalm
  have hsplit : of d (p.writes ++ [e]) = of d p.writes ++ of d [e] := of_append ..
  have hwrites : ∀ e' ∈ of d p.writes, e'.awaited = [] := fun e' he' =>
    hcalm e' (hsplit ▸ List.mem_append_left _ he')
  obtain ⟨heq, hlength⟩ := h.calm d hwrites
  rw [hsplit, of_append, of_append, of_singleton, heq, hbetween, of_append]
  rw [hbetween, of_append] at hlength
  by_cases hdriver : e.driverId = d
  · have hnothing : of d before = [] ∧ of d later = [] := by
      have hmem : e ∈ of d (p.writes ++ [e]) :=
        mem_of.mpr ⟨List.mem_append_right _ (List.mem_singleton_self e), hdriver⟩
      have hof : of c.driverId p.between = [] := List.map_eq_nil_iff.mp (hcalm e hmem)
      rw [show c.driverId = d from hdriver, hbetween, of_append] at hof
      exact List.append_eq_nil_iff.mp hof
    rw [if_pos hdriver, hnothing.1, hnothing.2]
    simp
  · rw [if_neg hdriver]
    simpa using hlength

variable {number : Nat} {c : Call} (hc : p.calls[number]? = some c)
include hc

/-- Of what the index has taken of a call that comes to stand elsewhere, nothing is forgotten. -/
theorem Accounted.told_put {standing : Standing}
    (hwritten : c.standing.hasWritten → standing.hasWritten) :
    ∀ e ∈ p.writes, ∃ c', (p.put number c standing).calls[e.number]? = some c' ∧
      c'.standing.hasWritten := by
  intro e he
  obtain ⟨c', hc', hwritten'⟩ := h.told e he
  by_cases hnumber : e.number = number
  · rw [hnumber] at hc' ⊢
    obtain rfl : c = c' := Option.some.inj (hc.symm.trans hc')
    exact ⟨_, get?_put hc standing, hwritten hwritten'⟩
  · exact ⟨c', (List.getElem?_set_ne (Ne.symm hnumber)).trans hc', hwritten'⟩

/-- The index has taken nothing of a call that has not come to it. -/
theorem Accounted.number_ne (hwritten : c.standing.hasWritten = false) :
    ∀ e ∈ p.writes, e.number ≠ number := by
  intro e he hnumber
  obtain ⟨c', hc', hwritten'⟩ := h.told e he
  rw [hnumber, hc] at hc'
  obtain rfl : c = c' := Option.some.inj hc'
  rw [hwritten] at hwritten'
  cases hwritten'

/-- A call that comes to stand elsewhere, neither with the index nor with the queue. -/
theorem Accounted.put {standing : Standing} (hentry : standing.entry? = c.standing.entry?)
    (hwritten : standing.hasWritten = c.standing.hasWritten) :
    (p.put number c standing).Accounted config := by
  obtain ⟨before, later, hbetween, hput⟩ := exists_between hc
  have hsame : (p.put number c standing).between = p.between := by
    rw [hput, hentry, hbetween]
  refine { h with told := h.told_put hc hwritten.trans, perm := ?_, calm := ?_ }
  · rw [hsame]
    exact h.perm
  · rw [hsame]
    exact h.calm

/-- **The index takes a position.**  What of the driver was not offered by then is awaited, and all
the rest was offered before. -/
theorem Accounted.taken {now : Timestamp} (hstanding : c.standing = .stamped now)
    {position : Position} {service : DriverService}
    (hrecord : p.service.record now c.driverId c.latitude c.longitude = .ok (position, service)) :
    (p.taken number c position service).Accounted config := by
  let e := p.entry number c position
  obtain ⟨before, later, hbetween, hput⟩ := exists_between hc
  have hnone : c.standing.entry? = none := by
    rw [hstanding]
    rfl
  rw [hnone, Option.toList_none, List.append_nil] at hbetween
  have hbetween' : (p.taken number c position service).between = before ++ [e] ++ later := hput _
  obtain ⟨-, rfl⟩ := DriverService.record_eq_ok hrecord
  have hwritten : c.standing.hasWritten = false := by
    rw [hstanding]
    rfl
  have hfresh := h.number_ne hc hwritten
  refine ⟨h.complete, fun d => ?_, fun a ha => ?_, ?_, ?_, ?_, ?_⟩
  · show (p.service.index.place c.driverId position).lookup d =
      (of d (p.writes ++ [e])).getLast?.map Entry.position
    rw [Index.lookup_place, of_append, of_singleton, h.lookup_eq]
    have hdriver : e.driverId = c.driverId := rfl
    rw [hdriver]
    split
    · rw [List.getLast?_concat]
      rfl
    · rw [List.append_nil]
  · rcases List.mem_append.mp ha with ha | ha
    · exact h.told_put hc (fun _ => rfl) a ha
    · rw [List.mem_singleton.mp ha]
      exact ⟨_, get?_put hc _, rfl⟩
  · show ((p.writes ++ [e]).map Entry.number).Nodup
    rw [List.map_append, List.nodup_append]
    refine ⟨h.nodup, by simp, fun i hi j hj => ?_⟩
    obtain ⟨a, ha, rfl⟩ := List.mem_map.mp hi
    rw [List.mem_singleton.mp hj]
    exact hfresh a ha
  · rw [hbetween']
    have hperm := h.perm.append_right [e]
    rw [hbetween, List.append_assoc, List.append_assoc] at hperm
    rw [List.append_assoc]
    exact hperm.trans ((List.perm_append_comm.append_left before).append_left p.offered)
  · show (p.writes ++ [e]).Pairwise _
    rw [List.pairwise_append]
    refine ⟨h.ordered, List.pairwise_singleton .., fun a ha b hb hdriver hnot => ?_⟩
    obtain rfl := List.mem_singleton.mp hb
    have hoffered : a ∈ p.offered := by
      rcases List.mem_append.mp (h.perm.mem_iff.mp ha) with hoffered | hbetween
      · exact hoffered
      · exact absurd (List.mem_map_of_mem (mem_of.mpr ⟨hbetween, hdriver⟩)) hnot
    have hnew : e ∉ p.offered := fun he =>
      hfresh e (h.perm.mem_iff.mpr (List.mem_append_left _ he)) rfl
    exact ⟨hoffered, fun he => absurd he hnew⟩
  · rw [hbetween']
    exact h.calm_taken number c position hbetween

/-- **A fix is offered to the queue.**  Its position joins those that were offered. -/
theorem Accounted.offer {entry : Entry} (hstanding : c.standing = .recorded entry) :
    (p.offer number c entry).Accounted config := by
  obtain ⟨before, later, hbetween, hput⟩ := exists_between hc
  have hsome : c.standing.entry? = some entry := by
    rw [hstanding]
    rfl
  rw [hsome, Option.toList_some] at hbetween
  have hbetween' : (p.offer number c entry).between = before ++ later :=
    (hput (.answered (.ok ()))).trans (by simp [Standing.entry?])
  have hoffered' : (p.offer number c entry).offered = p.offered ++ [entry] := List.map_append
  refine ⟨?_, h.lookup_eq, h.told_put hc fun _ => rfl, h.nodup, ?_, ?_, fun d hcalm => ?_⟩
  · have hjournal : (p.offer number c entry).journal = p.journal.next (.forward
        (DriverService.envelope entry.driverId entry.position p.clock.timestamp)) := by
      simp only [journal, Rush.offer, List.map_append, List.map_cons, List.map_nil]
      rfl
    rw [hjournal]
    exact h.complete.next _
  · have hperm := h.perm
    rw [hbetween] at hperm
    rw [hbetween', hoffered', List.append_assoc]
    refine hperm.trans (List.Perm.append_left p.offered ?_)
    rw [← List.append_assoc]
    exact List.perm_append_comm.append_right later
  · refine h.ordered.imp fun {a b} hordered hdriver hnot => ?_
    obtain ⟨ha, hsublist⟩ := hordered hdriver hnot
    rw [hoffered']
    refine ⟨List.mem_append_left _ ha, fun hb => ?_⟩
    rcases List.mem_append.mp hb with hb | hb
    · exact (hsublist hb).trans (List.sublist_append_left ..)
    · rw [List.mem_singleton.mp hb]
      exact (List.singleton_sublist.mpr ha).append_right [entry]
  · obtain ⟨heq, hlength⟩ := h.calm d hcalm
    show of d p.writes = _ ∧ _
    rw [hbetween', hoffered', of_append, of_append, of_singleton, heq, hbetween, of_append,
      of_append, of_singleton]
    rw [hbetween, of_append, of_append, of_singleton] at hlength
    by_cases hdriver : entry.driverId = d
    · -- there is nothing else of the driver between index and queue
      rw [if_pos hdriver] at hlength ⊢
      simp only [List.length_append, List.length_singleton] at hlength
      have hnothing : of d before = [] ∧ of d later = [] :=
        ⟨List.eq_nil_of_length_eq_zero (by omega), List.eq_nil_of_length_eq_zero (by omega)⟩
      rw [hnothing.1, hnothing.2]
      simp
    · rw [if_neg hdriver] at hlength ⊢
      simpa using hlength

theorem Accounted.record {now : Timestamp} (hstanding : c.standing = .stamped now) :
    (p.record number c now).Accounted config := by
  cases hrecord : p.service.record now c.driverId c.latitude c.longitude with
  | error e =>
    rw [record_error hrecord]
    exact h.put hc (by rw [hstanding]; rfl) (by rw [hstanding]; rfl)
  | ok recorded =>
    obtain ⟨position, service⟩ := recorded
    rw [record_ok hrecord]
    exact h.taken hc hstanding hrecord

theorem Accounted.step : (p.step number c).Accounted config := by
  cases hstanding : c.standing with
  | asked =>
    rw [Rush.step, hstanding]
    exact h.put hc (by rw [hstanding]; rfl) (by rw [hstanding]; rfl)
  | stamped now =>
    rw [step_stamped hstanding]
    exact h.record hc hstanding
  | recorded entry =>
    rw [step_recorded hstanding]
    exact h.offer hc hstanding
  | answered result =>
    rw [Rush.step, hstanding]
    exact h

theorem Accounted.expire : (p.expire number c).Accounted config := by
  rw [Rush.expire]
  split
  · rename_i hstanding
    exact h.put hc (by rw [hstanding]; rfl) (by rw [hstanding]; rfl)
  · exact h

end Events

/-- **Whatever happens next,** index and queue have what the updates brought them. -/
theorem Accounted.next {config : Config} {p : Rush} (h : p.Accounted config) (event : Event) :
    (p.next event).Accounted config := by
  cases event with
  | ask driverId latitude longitude => exact h.ask driverId latitude longitude
  | step number =>
    cases hc : p.calls[number]? with
    | none =>
      rw [Rush.next, hc]
      exact h
    | some c =>
      rw [next_step hc]
      exact h.step hc
  | expire number =>
    cases hc : p.calls[number]? with
    | none =>
      rw [Rush.next, hc]
      exact h
    | some c =>
      rw [Rush.next, hc]
      exact h.expire hc
  | advance step => exact { h with }
  | take => exact h.take
  | settle ending => exact h.settle ending

theorem Accounted.after {config : Config} {p : Rush} (h : p.Accounted config)
    (events : List Event) : (p.after events).Accounted config := by
  induction events generalizing p with
  | nil => exact h
  | cons event events ih => exact ih (h.next event)

/-! ## The order of the fixes -/

/-- The written form of a driver's position, which is what a fix carries. -/
def text (d : String) (position : Position) : Bytes :=
  Wire.write ({ driverId := d, position } : TrackPoint)

/-- The fixes of a driver that entered the queue, in the order in which they entered. -/
def queuedOf (p : Rush) (d : String) : List Envelope :=
  (p.handed ++ p.service.forwarder.queue).filter fun e => e.driverId = d

/-- What entered the queue is what was offered to it and found room. -/
theorem Accounted.queue_eq {config : Config} {p : Rush} (h : p.Accounted config) :
    p.handed ++ p.service.forwarder.queue =
      (p.offers.filter Offer.isQueued).map Offer.envelope := by
  have haccepted : p.journal.accepted = (p.offers.filter Offer.isQueued).map Offer.envelope := by
    rw [Forwarder.Journal.accepted, journal, List.filter_map, List.map_map]
    rfl
  rw [← haccepted]
  exact h.complete.accepted_eq.symm

/-- Where every fix of a driver found room, the queue was given the driver's positions in the order
of the offers. -/
theorem Accounted.payloads_eq {config : Config} {p : Rush} (h : p.Accounted config) {d : String}
    (hroom : ∀ o ∈ p.offers, o.entry.driverId = d → o.isQueued) :
    (p.queuedOf d).map Envelope.payload =
      (of d p.offered).map fun e => text d e.position := by
  have hqueued : (p.offers.filter fun o => o.entry.driverId = d && o.isQueued) =
      p.offers.filter fun o => o.entry.driverId = d := by
    refine List.filter_congr fun o ho => ?_
    by_cases hd : o.entry.driverId = d
    · simp [hd, hroom o ho hd]
    · simp [hd]
  have hqueuedOf : p.queuedOf d =
      (p.offers.filter fun o => o.entry.driverId = d && o.isQueued).map Offer.envelope := by
    rw [queuedOf, h.queue_eq, List.filter_map, List.filter_filter]
    rfl
  rw [hqueuedOf, hqueued, of, offered, List.filter_map, List.map_map, List.map_map]
  refine List.map_congr_left fun o ho => ?_
  have hd : o.entry.driverId = d := by simpa using (List.mem_filter.mp ho).2
  rw [← hd]
  rfl

/-! ## Drivers that wait for their answers -/

/-- Whether an update of a driver goes on. -/
def Call.goesOn (d : String) (c : Call) : Bool :=
  c.driverId = d && !c.standing.isAnswered

/-- The updates of a driver that go on. -/
def ongoing (p : Rush) (d : String) : List Call := p.calls.filter (Call.goesOn d)

/-- Whether a driver asks for an update. -/
def Event.asks (d : String) : Event → Bool
  | .ask driverId _ _ => driverId = d
  | _ => false

/-- **Whether a driver waits for its answers:** none of its updates is asked before the others are
answered. -/
def waits (d : String) : Rush → List Event → Bool
  | _, [] => true
  | p, event :: events =>
    (!event.asks d || (p.ongoing d).isEmpty) && waits d (p.next event) events

/-- **A driver has one update at a time,** and what is recorded of it is its own. -/
structure OneAtATime (d : String) (p : Rush) : Prop where
  ongoing : (p.ongoing d).length ≤ 1
  own : ∀ c ∈ p.calls, ∀ e, c.standing.entry? = some e → e.driverId = c.driverId
  calm : ∀ e ∈ of d p.writes, e.awaited = []

theorem oneAtATime_new (d : String) (config : Config) : (new config).OneAtATime d where
  ongoing := Nat.zero_le _
  own _ h := by cases h
  calm _ h := by cases h

section OneAtATime

variable {d : String} {p : Rush} (h : p.OneAtATime d)
include h

theorem OneAtATime.ask {driverId : String} (latitude longitude : Float)
    (hwaits : driverId = d → p.ongoing d = []) :
    (p.next (.ask driverId latitude longitude)).OneAtATime d := by
  refine { h with ongoing := ?_, own := fun c hc e he => ?_ }
  · show ((p.calls ++ [_]).filter (Call.goesOn d)).length ≤ 1
    rw [List.filter_append, List.length_append]
    by_cases hd : driverId = d
    · have hnone : p.calls.filter (Call.goesOn d) = [] := hwaits hd
      rw [hnone, List.length_nil, Nat.zero_add]
      exact List.length_filter_le ..
    · have hother : Call.goesOn d { driverId, latitude, longitude } = false := by
        simp [Call.goesOn, hd]
      rw [List.filter_singleton, hother]
      exact h.ongoing
  · rcases List.mem_append.mp hc with hc | hc
    · exact h.own c hc e he
    · rw [List.mem_singleton.mp hc] at he
      cases he

variable {number : Nat} {c : Call} (hc : p.calls[number]? = some c)
include hc

/-- An update that goes on may come to stand elsewhere. -/
theorem OneAtATime.put (standing : Standing) (hgoing : c.standing.isAnswered = false)
    (hentry : ∀ e, standing.entry? = some e → e.driverId = c.driverId) :
    (p.put number c standing).OneAtATime d := by
  obtain ⟨before, later, hcalls, hput⟩ := exists_calls hc
  refine { h with ongoing := ?_, own := fun c' hc' e he => ?_ }
  · have hongoing := h.ongoing
    rw [Rush.ongoing, hcalls] at hongoing
    rw [Rush.ongoing, hput]
    simp only [← List.countP_eq_length_filter, List.countP_append, List.countP_cons] at hongoing ⊢
    have hless : (if Call.goesOn d { c with standing } then 1 else 0) ≤
        if Call.goesOn d c then 1 else 0 := by
      by_cases hd : c.driverId = d
      · rw [show Call.goesOn d c = true by simp [Call.goesOn, hd, hgoing]]
        split <;> simp
      · rw [show Call.goesOn d { c with standing } = false by simp [Call.goesOn, hd]]
        exact Nat.zero_le _
    omega
  · rcases List.mem_or_eq_of_mem_set hc' with hc' | rfl
    · exact h.own c' hc' e he
    · exact hentry e he

omit hc in
/-- While an update of the driver goes on, no other one does. -/
theorem OneAtATime.eq_of_mem {c c' : Call} (hmem : c ∈ p.ongoing d) (hmem' : c' ∈ p.ongoing d) :
    c = c' := by
  have hlength := h.ongoing
  match hongoing : p.ongoing d, hmem, hmem', hlength with
  | [x], hmem, hmem', _ =>
    rw [List.mem_singleton.mp hmem, List.mem_singleton.mp hmem']

/-- **What the index takes of the driver overlaps nothing of the driver.** -/
theorem OneAtATime.between_eq_nil {now : Timestamp} (hstanding : c.standing = .stamped now)
    (hd : c.driverId = d) : of d p.between = [] := by
  have hc' : c ∈ p.ongoing d :=
    List.mem_filter.mpr ⟨List.mem_of_getElem? hc, by simp [Call.goesOn, hd, hstanding,
      Standing.isAnswered]⟩
  refine List.eq_nil_iff_forall_not_mem.mpr fun e he => ?_
  obtain ⟨hbetween, hdriver⟩ := mem_of.mp he
  obtain ⟨other, hother, hentry⟩ := List.mem_filterMap.mp hbetween
  have hgoing : other.standing.isAnswered = false := by
    cases hstand : other.standing with
    | answered result =>
      rw [hstand] at hentry
      cases hentry
    | _ => rfl
  have hother' : other ∈ p.ongoing d :=
    List.mem_filter.mpr ⟨hother, by simp [Call.goesOn, hgoing, ← h.own other hother e hentry,
      hdriver]⟩
  rw [← h.eq_of_mem hc' hother', hstanding] at hentry
  cases hentry

theorem OneAtATime.record {now : Timestamp} (hstanding : c.standing = .stamped now) :
    (p.record number c now).OneAtATime d := by
  have hgoing : c.standing.isAnswered = false := by
    rw [hstanding]
    rfl
  cases hrecord : p.service.record now c.driverId c.latitude c.longitude with
  | error e =>
    rw [record_error hrecord]
    exact h.put hc (.answered (.error e)) hgoing fun _ he => by cases he
  | ok recorded =>
    obtain ⟨position, service⟩ := recorded
    rw [record_ok hrecord]
    have hput := h.put hc (.recorded (p.entry number c position)) hgoing
      fun e he => by
        obtain rfl : p.entry number c position = e := Option.some.inj he
        rfl
    refine { hput with calm := fun e he => ?_ }
    rw [show (p.taken number c position service).writes = p.writes ++ [p.entry number c position]
      from rfl, of_append, List.mem_append] at he
    rcases he with he | he
    · exact h.calm e he
    · obtain ⟨he, hdriver⟩ := mem_of.mp he
      obtain rfl := List.mem_singleton.mp he
      have hd : c.driverId = d := hdriver
      show (of c.driverId p.between).map Entry.number = []
      rw [hd, h.between_eq_nil hc hstanding hd]
      rfl

theorem OneAtATime.step : (p.step number c).OneAtATime d := by
  cases hstanding : c.standing with
  | asked =>
    rw [Rush.step, hstanding]
    exact h.put hc _ (by rw [hstanding]; rfl) fun _ he => by cases he
  | stamped now =>
    rw [step_stamped hstanding]
    exact h.record hc hstanding
  | recorded entry =>
    rw [step_recorded hstanding]
    have hput := h.put hc (.answered (.ok ())) (by rw [hstanding]; rfl) fun _ he => by cases he
    exact { hput with }
  | answered result =>
    rw [Rush.step, hstanding]
    exact h

theorem OneAtATime.expire : (p.expire number c).OneAtATime d := by
  rw [Rush.expire]
  split
  · rename_i hstanding
    exact h.put hc _ (by rw [hstanding]; rfl) fun _ he => by cases he
  · exact h

end OneAtATime

theorem OneAtATime.next {d : String} {p : Rush} (h : p.OneAtATime d) {event : Event}
    (hwaits : event.asks d → p.ongoing d = []) : (p.next event).OneAtATime d := by
  cases event with
  | ask driverId latitude longitude =>
    exact h.ask latitude longitude fun hd => hwaits (decide_eq_true hd)
  | step number =>
    cases hc : p.calls[number]? with
    | none =>
      rw [Rush.next, hc]
      exact h
    | some c =>
      rw [next_step hc]
      exact h.step hc
  | expire number =>
    cases hc : p.calls[number]? with
    | none =>
      rw [Rush.next, hc]
      exact h
    | some c =>
      rw [Rush.next, hc]
      exact h.expire hc
  | advance step => exact { h with }
  | take =>
    rw [Rush.next]
    split
    · exact h
    · exact { h with }
  | settle ending =>
    rw [Rush.next]
    split
    · exact { h with }
    · exact h

/-- A driver that waits for its answers has one update at a time, so none of its fixes is
overtaken. -/
theorem OneAtATime.after {d : String} {p : Rush} (h : p.OneAtATime d) {events : List Event}
    (hwaits : p.waits d events) : (p.after events).OneAtATime d := by
  induction events generalizing p with
  | nil => exact h
  | cons event events ih =>
    obtain ⟨hnow, hlater⟩ := Bool.and_eq_true_iff.mp hwaits
    refine ih (h.next fun hasks => ?_) hlater
    rw [hasks] at hnow
    exact List.isEmpty_iff.mp hnow

/-- **Fixes are queued in the order of the index unless updates cross.**  In every interleaving each
position that the index took is offered to the queue exactly once, as soon as its update is through,
and the queue keeps what it has room for in the order of the offers; the index shows the last
position that it took.  If an update of a driver was through when another came to the index, its fix
is offered first.  So as long as no position of a driver comes to the index while another one waits
to be offered, as is the case for a driver that waits for its answers, and the queue has room for
them, the fixes of the driver enter the queue in the order in which the index took the positions,
all of them but for the one whose update is not through; and if there is none such, the last fix
carries the position that the index shows, the time of the observation included. -/
theorem fixes_in_order (config : Config) (events : List Event) :
    let p := (new config).after events
    (p.writes.map Entry.number).Nodup ∧
    p.writes.Perm (p.offered ++ p.between) ∧
    p.handed ++ p.service.forwarder.queue =
      (p.offers.filter Offer.isQueued).map Offer.envelope ∧
    (p.writes.Pairwise fun a b => a.driverId = b.driverId → a.number ∉ b.awaited →
      b ∈ p.offered → [a, b].Sublist p.offered) ∧
    ∀ d, p.service.index.lookup d = (of d p.writes).getLast?.map Entry.position ∧
      ((new config).waits d events → ∀ e ∈ of d p.writes, e.awaited = []) ∧
      ((∀ e ∈ of d p.writes, e.awaited = []) →
        (∀ o ∈ p.offers, o.entry.driverId = d → o.isQueued) →
        (of d p.between).length ≤ 1 ∧
        (p.queuedOf d).map Envelope.payload ++ (of d p.between).map (fun e => text d e.position) =
          (of d p.writes).map (fun e => text d e.position) ∧
        (of d p.between = [] →
          (p.queuedOf d).getLast?.map Envelope.payload =
            (p.service.index.lookup d).map (text d))) := by
  intro p
  have h : p.Accounted config := (accounted_new config).after events
  refine ⟨h.nodup, h.perm, h.queue_eq, ?_, fun d => ⟨h.lookup_eq d, fun hwaits => ?_,
    fun hcalm hroom => ?_⟩⟩
  · exact h.ordered.imp fun hordered hdriver hnot => (hordered hdriver hnot).2
  · exact ((oneAtATime_new d config).after hwaits).calm
  · obtain ⟨heq, hlength⟩ := h.calm d hcalm
    refine ⟨hlength, ?_, fun hnone => ?_⟩
    · rw [h.payloads_eq hroom, heq, List.map_append]
    · rw [← List.getLast?_map, h.payloads_eq hroom, h.lookup_eq, heq, hnone, List.append_nil,
        List.getLast?_map, Option.map_map]
      rfl

/-- Two updates of a driver that follow each other, with one of another driver across both. -/
def following : List Event :=
  [.ask "d" 0 0, .ask "e" 2 2, .step 1, .step 0, .step 1, .step 0, .step 0, .advance (.ofSeconds 1),
    .ask "d" 1 1, .step 2, .step 2, .take, .step 2, .step 1]

/-- The fixes of updates that follow each other are queued in their order. -/
theorem fixes_in_order_of_following :
    let p := (new {}).after following
    p.service.index.lookup "d" = some ⟨1, 1, 1704067201000⟩ ∧
    (p.queuedOf "d").map Envelope.payload =
      [text "d" ⟨0, 0, 1704067200000⟩, text "d" ⟨1, 1, 1704067201000⟩] ∧
    (p.queuedOf "d").getLast?.map Envelope.payload =
      some (text "d" ⟨1, 1, 1704067201000⟩) := by
  intro p
  have hwrites : (of "d" p.writes).map Entry.position =
      [⟨0, 0, 1704067200000⟩, ⟨1, 1, 1704067201000⟩] := by decide +kernel
  have hwaits : (new {}).waits "d" following := by decide +kernel
  have hbetween : of "d" p.between = [] := by decide +kernel
  have hroom : ∀ o ∈ p.offers, o.entry.driverId = "d" → o.isQueued := by decide +kernel
  obtain ⟨-, -, -, -, hd⟩ := fixes_in_order {} following
  obtain ⟨hlookup, hwaited, hordered⟩ := hd "d"
  obtain ⟨-, hqueued, hlast⟩ := hordered (hwaited hwaits) hroom
  have hfound : p.service.index.lookup "d" = some ⟨1, 1, 1704067201000⟩ := by
    rw [hlookup, ← List.getLast?_map, hwrites]
    rfl
  refine ⟨hfound, ?_, ?_⟩
  · have htexts := congrArg (List.map (text "d")) hwrites
    rw [List.map_map] at htexts
    rw [hbetween, List.map_nil, List.append_nil] at hqueued
    exact hqueued.trans htexts
  · rw [hlast hbetween, hfound]
    rfl

/-- Two updates of a driver: the index has the first position when it takes the second, and the
second fix is offered first. -/
def crossing : List Event :=
  [.ask "d" 0 0, .ask "d" 1 1, .step 0, .step 1, .step 0, .step 1, .step 1, .step 0]

/-- **The last fix need not show what the index does.**  A fix can overtake another of its driver:
both updates are accepted and both fixes queued, with room to spare, and the last fix carries the
position that the index has replaced. -/
theorem last_fix_differs :
    let now := Clock.start.timestamp
    let p := (new {}).after crossing
    p.writes.map Entry.position = [⟨0, 0, now⟩, ⟨1, 1, now⟩] ∧
    p.service.index.lookup "d" = some ⟨1, 1, now⟩ ∧
    p.queuedOf "d" =
      [DriverService.envelope "d" ⟨1, 1, now⟩ now, DriverService.envelope "d" ⟨0, 0, now⟩ now] ∧
    p.service.forwarder.stats.droppedFull = 0 := by
  decide +kernel

end Rush
end Fleet
