import Fleet.Proofs.Store.Exchange
import Fleet.Proofs.Store.Invariant
import Fleet.Proofs.Store.Rack

/-!
# Which drivers have a slot

A store keeps the slot of a driver just as long as it is needed: from a point that reached the
driver's log to an analysis that an append or a read stored.  Every act leaves it so, however it
ends (`Housed.next`), and the cells in which the slots are kept come and go with it
(`Rack.Mirrors.next`).  So the drivers that have a slot are those that are behind, after every run
of operations that follow one another, against any backend: `slots_while_behind`.
-/

namespace Fleet

open Query (Ensures)

namespace TrackStore

/-! ## Acts -/

namespace Act

/-- Whether an act offers an analysis to be stored. -/
def isSave : Act → Bool
  | .call _ => false
  | .save _ => true

/-- The operation that an act is.  An envelope that cannot be read is refused at once. -/
def operation (p : TrackPolicy) (now : Timestamp) : Act → (α : Type) × Query Unit (Phase α)
  | .call (.append point) => ⟨_, p.append now point⟩
  | .call (.ingest driverId point _) => ⟨_, p.ingest now driverId point⟩
  | .call (.deliver envelope) => ⟨TrackAnalysis,
    match (Wire.read? envelope.payload : Option TrackPoint) with
    | none => throw (.internal .unreadableRecord)
    | some point => p.ingest now envelope.driverId point⟩
  | .call (.recent driverId count) => ⟨_, TrackPolicy.recent driverId count⟩
  | .call (.latest driverId) => ⟨_, TrackPolicy.latest driverId⟩
  | .call (.analyzed driverId count _) => ⟨_, p.analyzed now driverId count⟩
  | .save a => ⟨_, p.save a⟩

/-- What an act leaves behind is what its operation does. -/
theorem run_operation {β : Type} (serve : Server β) (now : Timestamp) (s : TrackStore × β)
    (a : Act) :
    (a.run serve now s).2 = (s.1.run serve s.2 (a.operation s.1.policy now).2).2 := by
  cases a with
  | save a => rfl
  | call c =>
    cases c with
    | deliver envelope =>
      cases hread : (Wire.read? envelope.payload : Option TrackPoint) with
      | none =>
        simp only [run, Call.run, deliver, operation, hread]
        rfl
      | some point => simp only [run, Call.run, deliver, operation, hread]
    | _ => rfl

theorem concerns_operation (p : TrackPolicy) (now : Timestamp) (a : Act) :
    Concerns a.driverId (a.operation p now).2 := by
  cases a with
  | save a => exact .save p a
  | call c =>
    cases c with
    | append point => exact .append p now point
    | ingest driverId point deadline => exact .ingest p now driverId point
    | deliver envelope =>
      simp only [operation, driverId, Call.driverId]
      split
      · exact .throw _ _
      · exact .ingest p now _ _
    | recent driverId count => exact .lookUp (TrackPolicy.recentPoints_asks count)
    | latest driverId => exact .lookUp TrackPolicy.latestAnalysis_asks
    | analyzed driverId count deadline => exact .analyzed p now driverId count

end Act

section Operations

variable {α β : Type} {serve : Server β} {p : TrackPolicy} {st : TrackStore} {d : String}
  {old : List Exchange} {isSave : Bool} {x : Recorded β}

/-- A slot that is given back is dropped only where it is clean. -/
theorem settled_release {slot : Slot} (h : Settled d old slot x) :
    Settled d old ((st.release d slot).slotOf d) x := by
  rw [slotOf_release, if_pos rfl]
  split
  · exact h
  · rename_i hclean
    obtain ⟨new, hnew, -⟩ := h.covered
    have hnot : ¬Behind d x.exchanges := fun hbehind => hclean (h.isDirty_iff.mpr hbehind)
    exact ⟨iff_of_false Bool.false_ne_true hnot, new, hnew, fun _ => rfl⟩

/-- A store at the end of an operation. -/
abbrev SettledAt (d : String) (old : List Exchange) (st : TrackStore) (x : Recorded β) : Prop :=
  Settled d old (st.slotOf d) x

variable (hfree : st.held = none) (h : Open d old isSave (st.slotOf d) x)
include hfree h

theorem settled_of_leased {rest : Query Slot α}
    (hrest : Ensures (recording serve) (Open d old isSave) rest (fun _ => Settled d old)
      (Settled d old)) :
    Settles (fun _ => SettledAt d old) (SettledAt d old)
      (st.run (recording serve) x (pure (.leased d rest))) := by
  apply settles_run_of_free hfree
  show Settles _ _ ((rest (st.slotOf d)).run (recording serve) x)
  exact (hrest _ x h).imp (fun _ _ _ hs => settled_release hs) fun _ _ hs => settled_release hs

theorem settled_of_lookUp {q : Query Unit α}
    (hq : Ensures (recording serve) (fun _ => Open d old isSave (st.slotOf d)) q
      (fun _ _ => Open d old isSave (st.slotOf d)) fun _ => Open d old isSave (st.slotOf d)) :
    Settles (fun _ => SettledAt d old) (SettledAt d old)
      (st.run (recording serve) x (Phase.answered <$> q)) := by
  refine settles_run_of_free hfree (Ensures.map (hq.weaken_stop fun _ _ hs => hs.settled)
    (fun _ _ _ hs => hs.settled) () x h)

end Operations

section Operations

variable {α β : Type} {serve : Server β} {p : TrackPolicy} {st : TrackStore} {d : String}
  {old : List Exchange} {x : Recorded β} (hfree : st.held = none)
  (h : Open d old false (st.slotOf d) x)
include hfree h

theorem settled_of_append (now : Timestamp) {point : TrackPoint} (hd : point.driverId = d) :
    Settles (fun _ => SettledAt d old) (SettledAt d old)
      (st.run (recording serve) x (p.append now point)) := by
  rcases p.append_cases now point with ⟨e, hrefused⟩ | hleased
  · rw [hrefused]
    exact h.settled
  · rw [hleased, hd]
    exact settled_of_leased hfree h (TrackPolicy.appendLeased_settles now hd)

theorem settled_of_ingest (now : Timestamp) (point : TrackPoint) :
    Settles (fun _ => SettledAt d old) (SettledAt d old)
      (st.run (recording serve) x (p.ingest now d point)) := by
  rcases p.ingest_cases now d point with ⟨e, hrefused⟩ | ⟨hd, hown⟩
  · rw [hrefused]
    exact h.settled
  · rw [hown]
    exact settled_of_append hfree h now hd

theorem settled_of_analyzed (now : Timestamp) (count : Nat) :
    Settles (fun _ => SettledAt d old) (SettledAt d old)
      (st.run (recording serve) x (p.analyzed now d count)) := by
  rcases p.analyzed_cases now d count with ⟨e, hrefused⟩ | hanalyzed
  · rw [hrefused]
    exact h.settled
  · rw [hanalyzed]
    have hread : Ensures (recording serve) (Open d old false)
        (do return (← p.currentAnalysis now d).lastPoints (min count p.windowSize))
        (fun _ => Settled d old) (Settled d old) :=
      (TrackPolicy.currentAnalysis_settles now).bind fun _ => Ensures.pure fun _ _ hs => hs
    have hnewest : Ensures (recording serve) (fun (_ : Unit) => Open d old false (st.slotOf d))
        (Query.request (.range (TrackPolicy.pointsKey d) 1))
        (fun (_ : List Bytes) _ => Open d old false (st.slotOf d))
        fun _ => Open d old false (st.slotOf d) :=
      Query.request_idle (fun _ => outlastsIdle_open _) rfl rfl
    refine settles_run_of_free hfree (Ensures.bind (hnewest.weaken_stop fun _ _ hs => hs.settled)
      (fun newest => ?_) () x h)
    refine Ensures.ite (fun _ => Ensures.pure fun _ _ hs => hs.settled) fun _ =>
      Ensures.pure fun _ x' hs => ?_
    exact (hread _ x' hs).imp (fun _ _ _ hs => settled_release hs) fun _ _ hs => settled_release hs

end Operations

/-- **However an act ends, its driver's slot is settled.** -/
theorem Act.settled {β : Type} {serve : Server β} {s : TrackStore × Recorded β}
    {old : List Exchange}
    (hfree : s.1.held = none) (now : Timestamp) (a : Act)
    (h : Open a.driverId old a.isSave (s.1.slotOf a.driverId) s.2) :
    SettledAt a.driverId old (a.run (recording serve) now s).2.1
      (a.run (recording serve) now s).2.2 := by
  cases a with
  | save a =>
    exact (settled_of_leased hfree h (TrackPolicy.storeAnalysis_settles rfl)).always
  | call c =>
    cases c with
    | append point => exact (settled_of_append hfree h now rfl).always
    | ingest driverId point deadline => exact (settled_of_ingest hfree h now point).always
    | deliver envelope =>
      simp only [Act.run, Call.run, deliver]
      split
      · exact h.settled
      · exact (settled_of_ingest hfree h now _).always
    | recent driverId count =>
      exact (settled_of_lookUp hfree h
        (TrackPolicy.recentPoints_idle (fun _ => outlastsIdle_open _) count)).always
    | latest driverId =>
      exact (settled_of_lookUp hfree h
        (TrackPolicy.latestAnalysis_idle fun _ => outlastsIdle_open _)).always
    | analyzed driverId count deadline => exact (settled_of_analyzed hfree h now count).always

/-! ## Runs -/

/-- Only dirty slots are in the map. -/
def KeepsDirty (st : TrackStore) : Prop :=
  ∀ d slot, st.slots.get? d = some slot → slot.isDirty = true

theorem KeepsDirty.release {st : TrackStore} (h : st.KeepsDirty) (d : String) (slot : Slot) :
    (st.release d slot).KeepsDirty := by
  intro e slot' hget
  unfold TrackStore.release at hget
  cases hdirty : slot.isDirty with
  | true =>
    rw [hdirty, if_pos rfl, Table.get?_insert] at hget
    split at hget
    · cases hget
      exact hdirty
    · exact h e slot' hget
  | false =>
    rw [hdirty, if_neg Bool.false_ne_true, Table.get?_erase] at hget
    split at hget
    · cases hget
    · exact h e slot' hget

theorem KeepsDirty.run {α β : Type} {st : TrackStore} (h : st.KeepsDirty) (serve : Server β)
    (backend : β) (operation : Query Unit (Phase α)) :
    (st.run serve backend operation).2.1.KeepsDirty := by
  rw [TrackStore.run]
  split
  · exact h
  · exact h
  · exact h
  · split
    · exact h
    · exact h.release _ _

theorem KeepsDirty.isSome_iff {st : TrackStore} (h : st.KeepsDirty) (d : String) :
    (st.slots.get? d).isSome = true ↔ (st.slotOf d).isDirty = true := by
  rw [slotOf]
  cases hget : st.slots.get? d with
  | none => exact iff_of_false Bool.false_ne_true Bool.false_ne_true
  | some slot => exact ⟨fun _ => h d slot hget, fun _ => rfl⟩

section Runs

variable {β : Type} (serve : Server β)

/-- Store and backend after an act, its exchanges written down. -/
def next (s : TrackStore × Recorded β) (t : Timestamp × Act) : TrackStore × Recorded β :=
  (t.2.run (recording serve) t.1 (s.1, { s.2 with isSave := t.2.isSave })).2

/-- Store and backend after acts that follow one another. -/
def after (s : TrackStore × Recorded β) (acts : List (Timestamp × Act)) :
    TrackStore × Recorded β :=
  acts.foldl (next serve) s

/-- **The record is not seen:** store and backend are as they would be without it. -/
theorem after_eq (s : TrackStore × Recorded β) (acts : List (Timestamp × Act)) :
    Incident.after serve (s.1, s.2.backend) (acts.map fun t => .act t.1 t.2) =
      ((after serve s acts).1, (after serve s acts).2.backend) := by
  induction acts generalizing s with
  | nil => rfl
  | cons t acts ih =>
    have hbackend (x : Recorded β) (r : Request) : serve x.backend r =
        ((recording serve x r).1, (recording serve x r).2.backend) := rfl
    have hnext : (t.2.run serve t.1 (s.1, s.2.backend)).2 =
        ((next serve s t).1, (next serve s t).2.backend) :=
      t.2.run_map hbackend t.1 s.1 { s.2 with isSave := t.2.isSave }
    show Incident.after serve (t.2.run serve t.1 (s.1, s.2.backend)).2 _ = _
    rw [hnext]
    exact ih (next serve s t)

/-- **The drivers that are behind have a slot, and no others.** -/
structure Housed (s : TrackStore × Recorded β) : Prop where
  free : s.1.held = none
  kept : s.1.KeepsDirty
  isDirty_iff : ∀ d, (s.1.slotOf d).isDirty = true ↔ Behind d s.2.exchanges

theorem housed_new (policy : TrackPolicy) (backend : β) : Housed (new policy, { backend }) where
  free := rfl
  kept _ _ h := nomatch h
  isDirty_iff d := ⟨nofun, fun h => absurd h (not_behind_nil d)⟩

variable {serve} {s : TrackStore × Recorded β} (h : Housed s)
include h

theorem Housed.isSome_iff (d : String) :
    (s.1.slots.get? d).isSome = true ↔ Behind d s.2.exchanges := by
  rw [h.kept.isSome_iff, h.isDirty_iff]

/-- An act on another driver leaves a driver's slot alone, and is nothing to it. -/
theorem Housed.spared {t : Timestamp × Act} {d : String} (hne : t.2.driverId ≠ d) :
    ((next serve s t).1.slotOf d).isDirty = true ↔ Behind d (next serve s t).2.exchanges := by
  have hconcerns := t.2.concerns_operation s.1.policy t.1
  have hrecord : Behind d (s.1.run (recording serve) { s.2 with isSave := t.2.isSave }
      (t.2.operation s.1.policy t.1).2).2.2.exchanges ↔ Behind d s.2.exchanges := by
    refine run_rel (R := fun x x' : Recorded β => Behind d x'.exchanges ↔ Behind d x.exchanges)
      hconcerns (fun _ => .rfl) (fun _ _ _ hab hbc => hbc.trans hab) (fun x r hr => ?_) s.1 _
    obtain ⟨hpushes, hcovers⟩ := Exchange.not_of_about
      (e := ⟨x.isSave, r, isServed (serve x.backend r).1⟩) hr hne
    exact behind_cons_of_not hpushes hcovers
  rw [next, t.2.run_operation, slotOf_run hconcerns hne, hrecord]
  exact h.isDirty_iff d

/-- **An act leaves a slot to the drivers that are behind,** and none to a driver of which it has
stored an analysis, however it ends. -/
theorem Housed.next (t : Timestamp × Act) :
    Housed (next serve s t) ∧ ∃ new, (next serve s t).2.exchanges = new ++ s.2.exchanges ∧
      ((∃ e ∈ new, e.Covers t.2.driverId) →
        (next serve s t).1.slots.get? t.2.driverId = none) := by
  have hopen : Open t.2.driverId s.2.exchanges t.2.isSave (s.1.slotOf t.2.driverId)
      { s.2 with isSave := t.2.isSave } :=
    ⟨rfl, h.isDirty_iff _, [], rfl, nofun⟩
  have hsettled : SettledAt t.2.driverId s.2.exchanges (TrackStore.next serve s t).1
      (TrackStore.next serve s t).2 :=
    Act.settled (s := (s.1, { s.2 with isSave := t.2.isSave })) h.free t.1 t.2 hopen
  have hhoused : Housed (TrackStore.next serve s t) := by
    refine ⟨?_, ?_, fun d => ?_⟩
    · rw [TrackStore.next, t.2.run_operation, held_run]
      exact h.free
    · rw [TrackStore.next, t.2.run_operation]
      exact h.kept.run _ _ _
    · by_cases hd : t.2.driverId = d
      · subst hd
        exact hsettled.isDirty_iff
      · exact h.spared hd
  obtain ⟨new, hnew, hcovered⟩ := hsettled.covered
  refine ⟨hhoused, new, hnew, fun hnewest => ?_⟩
  have hclean := hcovered hnewest
  rw [← Bool.not_eq_true, ← hhoused.kept.isSome_iff, Option.not_isSome_iff_eq_none] at hclean
  exact hclean

theorem Housed.after (acts : List (Timestamp × Act)) : Housed (after serve s acts) := by
  induction acts generalizing s with
  | nil => exact h
  | cons t acts ih => exact ih (h.next t).1

end Runs

end TrackStore

/-! ## Cells -/

namespace Rack

open TrackStore (Act)

variable {β : Type} (serve : Server β) (p : TrackPolicy)

/-- Rack and backend after an act, its exchanges written down. -/
def next (k : Rack × Recorded β) (t : Timestamp × Act) : Rack × Recorded β :=
  (k.1.run (recording serve) { k.2 with isSave := t.2.isSave } (t.2.operation p t.1).2).2

/-- Rack and backend after acts that follow one another. -/
def after (k : Rack × Recorded β) (acts : List (Timestamp × Act)) : Rack × Recorded β :=
  acts.foldl (next serve p) k

variable {serve p} {k : Rack × Recorded β} {s : TrackStore × Recorded β}

/-- **A rack goes on having the slots of the store,** and their backends see the same. -/
theorem Mirrors.next (h : k.1.Mirrors s.1) (hbackend : k.2 = s.2) (hpolicy : s.1.policy = p)
    (hfree : s.1.held = none) (t : Timestamp × Act) :
    (Rack.next serve p k t).1.Mirrors (TrackStore.next serve s t).1 ∧
      (Rack.next serve p k t).2 = (TrackStore.next serve s t).2 := by
  subst hpolicy
  rw [Rack.next, TrackStore.next, t.2.run_operation, hbackend]
  exact (h.run hfree _ _ _).2

theorem Mirrors.after (h : k.1.Mirrors s.1) (hbackend : k.2 = s.2) (hpolicy : s.1.policy = p)
    (hfree : s.1.held = none) (acts : List (Timestamp × Act)) :
    (Rack.after serve p k acts).1.Mirrors (TrackStore.after serve s acts).1 ∧
      (Rack.after serve p k acts).2 = (TrackStore.after serve s acts).2 := by
  induction acts generalizing k s with
  | nil => exact ⟨h, hbackend⟩
  | cons t acts ih =>
    obtain ⟨hnext, hbackend'⟩ := h.next hbackend hpolicy hfree t
    refine ih hnext hbackend' ?_ ?_
    · rw [TrackStore.next, t.2.run_operation, TrackStore.policy_run]
      exact hpolicy
    · rw [TrackStore.next, t.2.run_operation, TrackStore.held_run]
      exact hfree

end Rack

namespace TrackStore

/-- **The drivers that have a slot are those that are behind.**  On a backend that does with each
request what it likes, after any acts that follow one another in one store, however each of them
ended:

* What is written down changes nothing: store and backend are as they are without it.
* The cells in which the slots are kept, with their locks and counts of references, are those of the
  store: a driver has a cell in the map just if it has a slot.
* A driver has one just if it is behind, and the slot in it is dirty.
* A driver whose points never reached its log has none.
* An act that stores an analysis of its driver, other than one that was offered, leaves its driver
  without. -/
theorem slots_while_behind {β : Type} (serve : Server β) (policy : TrackPolicy) (backend : β)
    (acts : List (Timestamp × Act)) :
    let s := after serve (new policy, { backend }) acts
    let k := Rack.after serve policy ({}, { backend }) acts
    Incident.after serve (new policy, backend) (acts.map fun t => .act t.1 t.2) =
        (s.1, s.2.backend) ∧
      k.1.Mirrors s.1 ∧ k.2 = s.2 ∧
      (∀ d, (k.1.slots.get? d).isSome = (s.1.slots.get? d).isSome) ∧
      (∀ d, (s.1.slots.get? d).isSome = true ↔ Behind d s.2.exchanges) ∧
      (∀ d slot, s.1.slots.get? d = some slot → slot.isDirty = true) ∧
      (∀ d, (∀ e ∈ s.2.exchanges, ¬e.Pushes d) → s.1.slots.get? d = none) ∧
      ∀ now a, let s' := next serve s (now, a)
        ∃ new, s'.2.exchanges = new ++ s.2.exchanges ∧
          ((∃ e ∈ new, e.Covers a.driverId) → s'.1.slots.get? a.driverId = none) := by
  intro s k
  have hhoused : Housed s := (housed_new policy backend).after acts
  obtain ⟨hmirrors, hbackend⟩ : k.1.Mirrors s.1 ∧ k.2 = s.2 :=
    (Rack.mirrors_new policy).after (k := ({}, { backend })) (s := (new policy, { backend }))
      rfl rfl rfl acts
  refine ⟨after_eq serve (new policy, { backend }) acts, hmirrors, hbackend, hmirrors.isSome_eq,
    hhoused.isSome_iff, hhoused.kept, fun d hnone => ?_, fun now a => (hhoused.next (now, a)).2⟩
  have hslot := mt (hhoused.isSome_iff d).mp (not_behind_of_no_push hnone)
  rwa [Option.not_isSome_iff_eq_none] at hslot

/-- A backend that does not answer the request with which the first append stores its analysis. -/
def mute : Server Faulty := Faulty.serve fun n => if n = 4 then .stalled else .served .zero

/-- An append, a save for another driver, and so many reads, on the mute backend. -/
def afterCancelled (reads : Nat) : TrackStore × Recorded Faulty :=
  after mute (new { speedLimit := 200 }, { backend := {} })
    ((0, .call (.append { driverId := "d", position := ⟨0, 0, 0⟩ })) ::
      (0, .save (Track.analyze 200 "e" [] 0)) ::
      List.replicate reads (0, .call (.analyzed "d" 1 none)))

/-- An append that is cancelled while it stores its analysis leaves its driver a slot, until a read
stores one.  An analysis that is offered for a driver without points leaves none. -/
theorem slots_while_behind_of_cancelled_append :
    ((afterCancelled 0).1.slots.get? "d").isSome = true ∧
      Behind "d" (afterCancelled 0).2.exchanges ∧
      (∀ e ∈ (afterCancelled 0).2.exchanges, ¬e.Pushes "e") ∧
      (afterCancelled 0).1.slots.get? "e" = none ∧
      ¬Behind "d" (afterCancelled 1).2.exchanges ∧
      ¬((afterCancelled 1).1.slots.get? "d").isSome = true := by
  have hslot : ((afterCancelled 0).1.slots.get? "d").isSome = true := by decide +kernel
  have hpushes : ∀ e ∈ (afterCancelled 0).2.exchanges, ¬e.Pushes "e" := by decide +kernel
  have hcovered : ¬Behind "d" (afterCancelled 1).2.exchanges := by decide +kernel
  have hall (reads : Nat) := slots_while_behind mute { speedLimit := 200 } {}
    ((0, .call (.append { driverId := "d", position := ⟨0, 0, 0⟩ })) ::
      (0, .save (Track.analyze 200 "e" [] 0)) ::
      List.replicate reads (0, .call (.analyzed "d" 1 none)))
  have hbehind (reads : Nat) (d : String) : ((afterCancelled reads).1.slots.get? d).isSome = true ↔
      Behind d (afterCancelled reads).2.exchanges := (hall reads).2.2.2.2.1 d
  have hnone : (afterCancelled 0).1.slots.get? "e" = none :=
    (hall 0).2.2.2.2.2.2.1 "e" hpushes
  exact ⟨hslot, (hbehind 0 "d").mp hslot, hpushes, hnone, hcovered, mt (hbehind 1 "d").mp hcovered⟩

end TrackStore

end Fleet
