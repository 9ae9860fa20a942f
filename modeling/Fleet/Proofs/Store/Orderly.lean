import Fleet.Proofs.Store.Crowd

/-!
# Calls on one driver are kept apart

`Crowd.Orderly` is what every step of a crowd of calls on one driver keeps: all leases are of one
cell, one call at most has its lock, and whoever has it will leave slot and track in step, whatever
the others do meanwhile.  The order of the calls does not matter, so a step may be looked at as if
it was the first call's (`Orderly.perm`); there is one lemma for each kind of step.
-/

namespace Fleet

open TrackPolicy (pointsKey)
open Query (Assures Asks)

namespace Visit

/-! ## What calls do -/

/-- A call on a driver, with a point from a list if it has one. -/
def Valid (d : String) (points : List TrackPoint) : Visit → Prop
  | .append _ point => point.driverId = d ∧ point.position.isValid ∧ point ∈ points
  | .analyzed _ driverId _ => driverId = d

/-- What a call may come to: only a read of no points at all is refused. -/
def Allows : Visit → Except FleetError Reply → Prop
  | .append _ _, .ok (.appended _) => True
  | .analyzed _ _ _, .ok (.shown _) => True
  | .analyzed _ _ count, .error _ => count = 0
  | _, _ => False

/-- What a call does under its lease. -/
def work (p : TrackPolicy) : Visit → Query Slot Reply
  | .append now point => .appended <$> p.appendLeased now point
  | .analyzed now driverId count => .shown <$> do
      return (← p.currentAnalysis now driverId).lastPoints (min count p.windowSize)

/-- What a call does before it leases a cell: it may look at the log of its driver. -/
def Approaches (p : TrackPolicy) (d : String) (v : Visit) :
    Session Unit (Phase Reply) → Prop
  | .done _ (.ok (.leased driverId rest)) => driverId = d ∧ rest = v.work p
  | .done _ (.ok (.answered reply)) => v.Allows (.ok reply) ∧ reply.sequence? = none
  | .done _ (.error e) => v.Allows (.error e)
  | .ask _ r resume => r = .range (pointsKey d) 1 ∧
      ∀ reply, v.Approaches p d (resume (.ok reply))

variable {p : TrackPolicy} {d : String} {points : List TrackPoint} {v : Visit}

/-- An append brings a sequence number, and nobody else does. -/
theorem Allows.sequence?_isSome {reply : Reply} (h : v.Allows (.ok reply)) :
    reply.sequence?.isSome = v.isAppend := by
  cases v <;> cases reply <;> first | rfl | cases h

theorem approaches_operation (hd : d.isEmpty = false) (hv : v.Valid d points) :
    v.Approaches p d (v.operation p ()) := by
  cases v with
  | append now point =>
    obtain ⟨rfl, hvalid, -⟩ := hv
    have hposition : Geo.validate point.position.latitude point.position.longitude = .ok () :=
      if_pos hvalid
    have hleased : p.append now point =
        pure (.leased point.driverId (p.appendLeased now point)) := by
      rw [TrackPolicy.append, hd, hposition]
      rfl
    show Approaches p _ _ ((Phase.map Reply.appended <$> p.append now point) ())
    rw [hleased]
    exact ⟨rfl, rfl⟩
  | analyzed now driverId count =>
    obtain rfl : driverId = d := hv
    show Approaches p _ _ ((Phase.map Reply.shown <$> p.analyzed now driverId count) ())
    by_cases hzero : count = 0
    · have hrefused : p.analyzed now driverId count = throw (.invalidInput .zeroCount) := by
        rw [TrackPolicy.analyzed, hd, if_neg Bool.false_ne_true, if_pos hzero]
        rfl
      rw [hrefused]
      exact hzero
    · rw [TrackPolicy.analyzed, hd, if_neg Bool.false_ne_true, if_neg hzero]
      refine ⟨rfl, fun (reply : List Bytes) => ?_⟩
      cases reply with
      | nil => exact ⟨trivial, rfl⟩
      | cons value rest => exact ⟨rfl, rfl⟩

theorem work_asks (hv : v.Valid d points) : (v.work p).Asks (Request.About d) := by
  cases v with
  | append now point =>
    obtain ⟨rfl, -, -⟩ := hv
    exact (TrackPolicy.appendLeased_asks now point).bind fun _ => Asks.pure _
  | analyzed now driverId count =>
    obtain rfl : driverId = d := hv
    exact (TrackStore.lastPoints_asks p driverId now _).bind fun _ => Asks.pure _

end Visit

/-! ## What is left behind -/

/-- **Nobody works on a driver:** slot and track are in step, the records are legible, `n` points
have arrived, and the slot is clean. -/
structure Rested (p : TrackPolicy) (d : String) (points : List TrackPoint) (n : Nat) (s : Slot)
    (h : Holding) : Prop where
  inStep : InStep p d s h
  legible : h.Legible points
  length_arrivals : h.arrivals.length = n
  clean : h.lapsed = false → s.isDirty = false

/-- **How a call leaves its driver** that starts when `n` points have arrived. -/
structure Visit.Leaves (p : TrackPolicy) (d : String) (points : List TrackPoint) (n : Nat)
    (v : Visit) (reply : Visit.Reply) (s : Slot) (h : Holding) : Prop where
  allows : v.Allows (.ok reply)
  rested : Rested p d points (n + if v.isAppend then 1 else 0) s h
  sequence_eq : h.lapsed = false → ∀ k, reply.sequence? = some k → k.toNat = n + 1

section Work

variable {p : TrackPolicy} {d : String} {points : List TrackPoint} {v : Visit} {n : Nat}

theorem rested_empty (p : TrackPolicy) (d : String) (points : List TrackPoint) :
    Rested p d points 0 {} {} where
  inStep := inStep_empty p d
  legible := Holding.legible_empty points
  length_arrivals := rfl
  clean _ := rfl

/-- **A call that has the lock leaves its driver as it should.** -/
theorem Visit.work_assures (hp : p.Legible d points) (hv : v.Valid d points)
    (hn : n + (if v.isAppend then 1 else 0) < 2 ^ 64) :
    (v.work p).Assures (Rested p d points n) (v.Leaves p d points n) := by
  cases v with
  | append now point =>
    obtain ⟨hd, -, hpoint⟩ := hv
    replace hn : n + 1 < 2 ^ 64 := hn
    have happend : (p.appendLeased now point).Assures (Rested p d points n)
        (fun a s h => Rested p d points (n + 1) s h ∧
          (h.lapsed = false → a.sequence.toNat = n + 1)) := by
      intro s h hs
      have hcount : h.arrivals.length + 1 < 2 ^ 64 := by
        rw [hs.length_arrivals]
        exact hn
      refine (TrackPolicy.appendLeased_assures hp now hd hpoint hcount s h
        ⟨⟨hs.inStep, hs.legible⟩, rfl⟩).imp ?_
      rintro a s' h' ⟨⟨⟨hfits, hl⟩, harrivals⟩, hclean⟩
      have hlength : h'.arrivals.length = n + 1 := by
        rw [harrivals, List.length_cons, hs.length_arrivals]
      refine ⟨⟨hfits.inStep, hl, hlength, hclean⟩, fun hlapsed => ?_⟩
      rw [hfits.sequence_eq_ofNat hlapsed, UInt64.toNat_ofNat', hlength, Nat.mod_eq_of_lt hn]
    refine happend.map ?_
    rintro a s h ⟨hs, hsequence⟩
    refine ⟨trivial, hs, fun hlapsed k hk => ?_⟩
    obtain rfl := Option.some.inj hk
    exact hsequence hlapsed
  | analyzed now driverId count =>
    obtain rfl : driverId = d := hv
    have hread : (do
        return (← p.currentAnalysis now driverId).lastPoints (min count p.windowSize) :
          Query Slot (List TrackPoint)).Assures (Rested p driverId points n)
        (fun _ => Rested p driverId points n) := by
      intro s h hs
      have hcount : h.arrivals.length < 2 ^ 64 := by
        rw [hs.length_arrivals]
        exact hn
      refine Session.assures_andThen (TrackPolicy.currentAnalysis_assures hp now hcount s h
        ⟨⟨hs.inStep, hs.legible⟩, rfl⟩) ?_
      rintro a s' h' ⟨⟨⟨hinStep, hl⟩, harrivals⟩, hclean⟩
      exact ⟨hinStep, hl, harrivals ▸ hs.length_arrivals, hclean⟩
    exact hread.map fun _ _ _ hs => ⟨trivial, hs, fun _ _ hk => nomatch hk⟩

end Work

/-- A call is where it can be. -/
def Task.Stands (p : TrackPolicy) (d : String) (t : Task) : Prop :=
  match t.stage with
  | .asking m => t.visit.Approaches p d m
  | .waiting _ rest => rest = t.visit.work p
  | .working _ m => m.Asks (Request.About d)
  | .leaving _ result => t.visit.Allows result
  | .finished result => t.visit.Allows result

namespace Crowd

/-! ## What every step keeps -/

/-- **The calls on a driver are kept apart:** one at most has a lock, and all leases are of the
cell that the map has for the driver. -/
structure IsApart (d : String) (c : Crowd) : Prop where
  alone : c.tasks.countP Task.isWorking ≤ 1
  leased : ∀ t ∈ c.tasks, ∀ lease, t.stage.lease? = some lease →
    lease.driverId = d ∧ c.slots.get? d = some lease.cell

/-- **What all calls on a driver rely on.** -/
structure Orderly (p : TrackPolicy) (d : String) (points : List TrackPoint) (c : Crowd) : Prop
    extends c.IsApart d where
  policy_eq : c.policy = p
  valid : ∀ t ∈ c.tasks, t.visit.Valid d points
  stands : ∀ t ∈ c.tasks, t.Stands p d
  made : ∀ cell, c.slots.get? d = some cell → cell < c.cells.length
  /-- The map has a cell as long as somebody leases it. -/
  needed : ∀ cell, c.slots.get? d = some cell → (c.backend.holding d).lapsed = false →
    0 < c.leases cell
  rested : c.tasks.countP Task.isWorking = 0 →
    Rested p d points c.sequences.length (c.slotOf d) (c.backend.holding d)
  /-- Who works will leave slot and track in step, however long that takes. -/
  assured : ∀ t ∈ c.tasks, ∀ lease m, t.stage = .working lease m →
    m.Assures (t.visit.Leaves p d points c.sequences.length) (c.backend.holding d)
  /-- The sequence numbers that calls have brought are those from one on. -/
  numbered : (c.backend.holding d).lapsed = false →
    (c.sequences.map UInt64.toNat).Perm (List.range' 1 c.sequences.length)

variable {p : TrackPolicy} {d : String} {points : List TrackPoint} {c : Crowd}

theorem orderly_new (p : TrackPolicy) (d : String) (points : List TrackPoint) :
    (new p).Orderly p d points where
  policy_eq := rfl
  valid _ ht := nomatch ht
  stands _ ht := nomatch ht
  leased _ ht := nomatch ht
  made _ hcell := nomatch hcell
  needed _ hcell := nomatch hcell
  alone := Nat.zero_le 1
  rested _ := rested_empty p d points
  assured _ ht := nomatch ht
  numbered _ := List.Perm.refl []

/-- The order of the calls does not matter. -/
theorem Orderly.perm (h : c.Orderly p d points) {tasks : List Task}
    (hperm : c.tasks.Perm tasks) : { c with tasks }.Orderly p d points := by
  have hsequences : c.sequences.Perm (tasks.filterMap Task.sequence?) := hperm.filterMap _
  have hcount : c.sequences.length = (tasks.filterMap Task.sequence?).length :=
    hsequences.length_eq
  have hworking := hperm.countP_eq Task.isWorking
  exact
    { policy_eq := h.policy_eq
      valid := fun t ht => h.valid t (hperm.mem_iff.mpr ht)
      stands := fun t ht => h.stands t (hperm.mem_iff.mpr ht)
      leased := fun t ht => h.leased t (hperm.mem_iff.mpr ht)
      made := h.made
      needed := fun cell hcell hlapsed => by
        have hleases := h.needed cell hcell hlapsed
        rwa [leases, hperm.countP_eq] at hleases
      alone := hworking ▸ h.alone
      rested := fun hidle => by
        have hrested := h.rested (hworking.trans hidle)
        rwa [hcount] at hrested
      assured := fun t ht lease m hm => by
        have hassured := h.assured t (hperm.mem_iff.mpr ht) lease m hm
        rwa [hcount] at hassured
      numbered := fun hlapsed => by
        have hnumbered := h.numbered hlapsed
        rw [hcount] at hnumbered
        exact (hsequences.symm.map _).trans hnumbered }

/-- **No more sequence numbers are brought than appends come,** and one less while an append is
under way. -/
theorem Orderly.length_sequences (h : c.Orderly p d points) {t : Task} {others : List Task}
    (htasks : c.tasks = t :: others) (ht : t.sequence? = none) :
    c.sequences.length + (if t.visit.isAppend then 1 else 0) ≤ c.appends := by
  have hbrought : ∀ u ∈ c.tasks, u.sequence?.isSome → u.visit.isAppend = true := by
    intro u hu hsome
    have hstands := h.stands u hu
    rcases u with ⟨v, m | ⟨l, rest⟩ | ⟨l, m⟩ | ⟨l, _ | reply⟩ | (_ | reply)⟩
    · cases hsome
    · cases hsome
    · cases hsome
    · cases hsome
    · exact (Visit.Allows.sequence?_isSome hstands).symm.trans hsome
    · cases hsome
    · exact (Visit.Allows.sequence?_isSome hstands).symm.trans hsome
  rw [sequences, appends, htasks, List.filterMap_cons_none ht, List.countP_cons,
    List.length_filterMap_eq_countP]
  refine Nat.add_le_add_right (List.countP_mono_left fun u hu hsome => ?_) _
  exact hbrought u (htasks ▸ List.mem_cons_of_mem t hu) hsome

/-! ## Steps -/

section Steps

variable {t : Task} {others : List Task}

/-- **A step of a call that does not have the lock** and brings nothing, if leases and map are as
they should be after it, and the slot has not changed or been forgotten. -/
theorem Orderly.idle (h : { c with tasks := t :: others }.Orderly p d points) (c' : Crowd)
    (t' : Task) (hvisit : t'.visit = t.visit) (hstands : t'.Stands p d)
    (hstill : t.isWorking = false) (hstill' : t'.isWorking = false)
    (hsequence : t'.sequence? = t.sequence?)
    (hpolicy : c'.policy = c.policy) (hholding : c'.backend.holding d = c.backend.holding d)
    (hleased : ∀ u ∈ t' :: others, ∀ lease, u.stage.lease? = some lease →
      lease.driverId = d ∧ c'.slots.get? d = some lease.cell)
    (hmade : ∀ cell, c'.slots.get? d = some cell → cell < c'.cells.length)
    (hneeded : ∀ cell, c'.slots.get? d = some cell → (c.backend.holding d).lapsed = false →
      0 < { c' with tasks := t' :: others }.leases cell)
    (hslot : ∀ n, Rested p d points n (c.slotOf d) (c.backend.holding d) →
      Rested p d points n (c'.slotOf d) (c.backend.holding d)) :
    { c' with tasks := t' :: others }.Orderly p d points := by
  have hsequences : { c' with tasks := t' :: others }.sequences =
      { c with tasks := t :: others }.sequences := by
    rw [sequences, sequences, List.filterMap_cons, List.filterMap_cons, hsequence]
  have hworking : (t' :: others).countP Task.isWorking =
      (t :: others).countP Task.isWorking := by
    rw [List.countP_cons, List.countP_cons, hstill, hstill']
  exact
    { policy_eq := hpolicy.trans h.policy_eq
      valid := fun u hu => by
        rcases List.mem_cons.mp hu with rfl | hu
        · rw [hvisit]
          exact h.valid t List.mem_cons_self
        · exact h.valid u (List.mem_cons_of_mem t hu)
      stands := fun u hu => by
        rcases List.mem_cons.mp hu with rfl | hu
        · exact hstands
        · exact h.stands u (List.mem_cons_of_mem t hu)
      leased := hleased
      made := hmade
      needed := fun cell hcell hlapsed => hneeded cell hcell (hholding ▸ hlapsed)
      alone := hworking ▸ h.alone
      rested := fun hidle => by
        have hrested := hslot _ (h.rested (hworking.symm.trans hidle))
        rw [hsequences]
        exact hholding ▸ hrested
      assured := fun u hu lease m hm => by
        rcases List.mem_cons.mp hu with rfl | hu
        · rw [Task.isWorking, hm] at hstill'
          cases hstill'
        · have hassured := h.assured u (List.mem_cons_of_mem t hu) lease m hm
          rw [hsequences]
          exact hholding ▸ hassured
      numbered := fun hlapsed => by
        rw [hsequences]
        exact h.numbered (hholding ▸ hlapsed) }

/-- A call without a lease, before and after, does not count among the leases. -/
theorem leases_cons_of_none (c : Crowd) (ht : t.stage.lease? = none) (cell : Nat) :
    { c with tasks := t :: others }.leases cell = { c with tasks := others }.leases cell := by
  rw [leases, List.countP_cons, ht]
  rfl

theorem leases_cons_of_some (c : Crowd) (lease : Lease) (ht : t.stage.lease? = some lease) :
    { c with tasks := t :: others }.leases lease.cell =
      { c with tasks := others }.leases lease.cell + 1 := by
  rw [leases, List.countP_cons, ht]
  simp [leases]

/-- A step that has nothing to do with leases. -/
theorem Orderly.aside (h : { c with tasks := t :: others }.Orderly p d points) (t' : Task)
    (hvisit : t'.visit = t.visit) (hstands : t'.Stands p d) (ht : t.stage.lease? = none)
    (ht' : t'.stage.lease? = none) (hsequence : t'.sequence? = t.sequence?)
    {backend : Faulty} (hholding : backend.holding d = c.backend.holding d) :
    { c with backend, tasks := t' :: others }.Orderly p d points := by
  have hstill : ∀ u : Task, u.stage.lease? = none → u.isWorking = false := by
    rintro ⟨v, m | ⟨l, rest⟩ | ⟨l, m⟩ | ⟨l, result⟩ | result⟩ hu <;> first | rfl | cases hu
  refine h.idle { c with backend } t' hvisit hstands (hstill t ht) (hstill t' ht') hsequence
    rfl hholding ?_ h.made ?_ fun _ hs => hs
  · intro u hu lease hlease
    rcases List.mem_cons.mp hu with rfl | hu
    · rw [ht'] at hlease
      cases hlease
    · exact h.leased u (List.mem_cons_of_mem t hu) lease hlease
  · intro cell hcell hlapsed
    have hneeded := h.needed cell hcell hlapsed
    rw [leases_cons_of_none c ht] at hneeded
    exact (leases_cons_of_none { c with backend } ht' cell).symm ▸ hneeded

/-- A call looks at the log. -/
theorem Orderly.asks {v : Visit} {s : Unit} {r : Request}
    {resume : r.Result → Session Unit (Phase Visit.Reply)}
    (h : { c with tasks := ⟨v, .asking (.ask s r resume)⟩ :: others }.Orderly p d points)
    (now : Duration) :
    { c.serve now r with
      tasks := ⟨v, .asking (resume (.ok (c.backend.memory.perform now r).1))⟩ :: others }.Orderly
      p d points := by
  obtain ⟨rfl, hresume⟩ : r = .range (pointsKey d) 1 ∧
      ∀ reply, v.Approaches p d (resume (.ok reply)) := h.stands _ List.mem_cons_self
  have habout : (Request.range (pointsKey d) 1).About d := rfl
  exact h.aside ⟨v, .asking (resume _)⟩ rfl (hresume _) rfl rfl rfl
    (congrArg Prod.snd (c.backend.perform_holding now habout))

/-- A call is over before it needs a lease. -/
theorem Orderly.answers {v : Visit} {s : Unit} {result : Except FleetError (Phase Visit.Reply)}
    (h : { c with tasks := ⟨v, .asking (.done s result)⟩ :: others }.Orderly p d points)
    {end_ : Except FleetError Visit.Reply} (hallows : v.Allows end_)
    (hsequence : end_.toOption.bind Visit.Reply.sequence? = none) :
    { c with tasks := ⟨v, .finished end_⟩ :: others }.Orderly p d points :=
  h.aside ⟨v, .finished end_⟩ rfl hallows rfl rfl hsequence rfl

/-- A call leases the cell of its driver. -/
theorem Orderly.checksOut {v : Visit} {s : Unit} {e : String} {rest : Query Slot Visit.Reply}
    (h : { c with tasks := ⟨v, .asking (.done s (.ok (.leased e rest)))⟩ :: others }.Orderly
      p d points) :
    { (c.checkOut e).2 with tasks := ⟨v, .waiting (c.checkOut e).1 rest⟩ :: others }.Orderly
      p d points := by
  obtain ⟨rfl, hrest⟩ : e = d ∧ rest = v.work p := h.stands _ List.mem_cons_self
  cases hget : c.slots.get? e with
  | some cell =>
    have hcheckOut : c.checkOut e = (⟨e, cell⟩, c) := by rw [checkOut, hget]
    rw [hcheckOut]
    refine h.idle c ⟨v, .waiting ⟨e, cell⟩ rest⟩ rfl hrest rfl rfl rfl rfl rfl ?_ h.made ?_
      fun _ hs => hs
    · intro u hu lease hlease
      rcases List.mem_cons.mp hu with rfl | hu
      · obtain rfl := Option.some.inj hlease
        exact ⟨rfl, hget⟩
      · exact h.leased u (List.mem_cons_of_mem _ hu) lease hlease
    · intro cell' hcell' _
      obtain rfl := Option.some.inj (hget.symm.trans hcell')
      rw [leases_cons_of_some c ⟨e, cell⟩ rfl]
      exact Nat.succ_pos _
  | none =>
    have hcheckOut : c.checkOut e = (⟨e, c.cells.length⟩, { c with
        cells := c.cells ++ [{}], slots := c.slots.insert e c.cells.length }) := by
      rw [checkOut, hget]
    have hinsert : (c.slots.insert e c.cells.length).get? e = some c.cells.length := by
      rw [Table.get?_insert, if_pos rfl]
    rw [hcheckOut]
    refine h.idle { c with cells := c.cells ++ [{}], slots := c.slots.insert e c.cells.length }
      ⟨v, .waiting ⟨e, c.cells.length⟩ rest⟩ rfl hrest rfl rfl rfl rfl rfl ?_ ?_ ?_ ?_
    · intro u hu lease hlease
      rcases List.mem_cons.mp hu with rfl | hu
      · obtain rfl := Option.some.inj hlease
        exact ⟨rfl, hinsert⟩
      · -- nobody else can have a lease of a driver without a cell
        have hcell := (h.leased u (List.mem_cons_of_mem _ hu) lease hlease).2
        rw [show c.slots.get? e = none from hget] at hcell
        cases hcell
    · intro cell hcell
      obtain rfl := Option.some.inj (hinsert.symm.trans hcell)
      exact List.length_append ▸ Nat.lt_succ_self _
    · intro cell hcell _
      obtain rfl := Option.some.inj (hinsert.symm.trans hcell)
      rw [leases_cons_of_some _ ⟨e, c.cells.length⟩ rfl]
      exact Nat.succ_pos _
    · intro n hs
      -- the new cell holds what a driver without a cell is taken to have
      have hbefore : c.slotOf e = ({} : Slot) := by
        rw [slotOf, hget]
        rfl
      have hafter : slotOf { c with
          cells := c.cells ++ [{}]
          slots := c.slots.insert e c.cells.length } e = ({} : Slot) := by
        rw [slotOf, hinsert]
        simp [cell]
      rw [hafter]
      rwa [hbefore] at hs

/-- Where nobody else has the lock of the one cell, nobody else works. -/
theorem Orderly.countP_working (h : { c with tasks := t :: others }.Orderly p d points)
    {lease : Lease} (hlease : t.stage.lease? = some lease)
    (hfree : ∀ u ∈ others, u.stage.locked? ≠ some lease.cell) :
    others.countP Task.isWorking = 0 := by
  refine List.countP_eq_zero.mpr fun u hu hworking => ?_
  obtain ⟨v, stage⟩ := u
  cases stage with
  | working lease' m =>
    have hcell := (h.leased _ (List.mem_cons_of_mem t hu) lease' rfl).2
    have hcell' := (h.leased t List.mem_cons_self lease hlease).2
    exact hfree _ hu (hcell.symm.trans hcell')
  | asking m => cases hworking
  | waiting lease' rest => cases hworking
  | leaving lease' result => cases hworking
  | finished result => cases hworking

theorem not_working_of_countP (hothers : others.countP Task.isWorking = 0) {u : Task}
    (hu : u ∈ others) {lease : Lease} {m : Session Slot Visit.Reply}
    (hstage : u.stage = .working lease m) : False := by
  refine List.countP_eq_zero.mp hothers u hu ?_
  rw [Task.isWorking, hstage]
  rfl

/-- **A call that has a lease gets the lock, or goes on with it.** -/
theorem Orderly.engaged {v : Visit} {stage : Standing}
    (h : { c with tasks := ⟨v, stage⟩ :: others }.Orderly p d points) {lease : Lease}
    (hlease : stage.lease? = some lease) (hresult : stage.result? = none)
    (hothers : others.countP Task.isWorking = 0) {m : Session Slot Visit.Reply}
    (hasks : m.Asks (Request.About d)) {backend : Faulty}
    (hunlapsed : (backend.holding d).lapsed = false → (c.backend.holding d).lapsed = false)
    (hassured : m.Assures
      (v.Leaves p d points { c with tasks := ⟨v, stage⟩ :: others }.sequences.length)
      (backend.holding d)) :
    { c with backend, tasks := ⟨v, .working lease m⟩ :: others }.Orderly p d points := by
  have hsequences : { c with backend, tasks := ⟨v, .working lease m⟩ :: others }.sequences =
      { c with tasks := ⟨v, stage⟩ :: others }.sequences := by
    have hnone : Task.sequence? ⟨v, stage⟩ = none := by
      rw [Task.sequence?, hresult]
      rfl
    rw [sequences, sequences, List.filterMap_cons_none hnone]
    rfl
  exact
    { policy_eq := h.policy_eq
      valid := fun u hu => by
        rcases List.mem_cons.mp hu with rfl | hu
        · exact h.valid ⟨v, stage⟩ List.mem_cons_self
        · exact h.valid u (List.mem_cons_of_mem _ hu)
      stands := fun u hu => by
        rcases List.mem_cons.mp hu with rfl | hu
        · exact hasks
        · exact h.stands u (List.mem_cons_of_mem _ hu)
      leased := fun u hu lease' hlease' => by
        rcases List.mem_cons.mp hu with rfl | hu
        · obtain rfl := Option.some.inj hlease'
          exact h.leased ⟨v, stage⟩ List.mem_cons_self lease hlease
        · exact h.leased u (List.mem_cons_of_mem _ hu) lease' hlease'
      made := h.made
      needed := fun cell hcell hlapsed => by
        have hneeded := h.needed cell hcell (hunlapsed hlapsed)
        rw [leases, List.countP_cons, hlease] at hneeded
        rw [leases, List.countP_cons]
        exact hneeded
      alone := by
        show (Task.mk v (.working lease m) :: others).countP Task.isWorking ≤ 1
        rw [List.countP_cons, hothers]
        exact Nat.le_refl 1
      rested := fun hidle =>
        (not_working_of_countP hidle List.mem_cons_self rfl).elim
      assured := fun u hu lease' m' hm => by
        rw [hsequences]
        rcases List.mem_cons.mp hu with rfl | hu
        · cases hm
          exact hassured
        · exact (not_working_of_countP hothers hu hm).elim
      numbered := fun hlapsed => by
        rw [hsequences]
        exact h.numbered (hunlapsed hlapsed) }

/-- **A call takes the lock.** -/
theorem Orderly.locks (hp : p.Legible d points) {v : Visit} {lease : Lease}
    {rest : Query Slot Visit.Reply}
    (h : { c with tasks := ⟨v, .waiting lease rest⟩ :: others }.Orderly p d points)
    (hroom : { c with tasks := ⟨v, .waiting lease rest⟩ :: others }.appends < 2 ^ 64)
    (hfree : ∀ u ∈ others, u.stage.locked? ≠ some lease.cell) :
    { c with tasks := ⟨v, .working lease (rest (c.cell lease.cell))⟩ :: others }.Orderly
      p d points := by
  obtain rfl : rest = v.work p := h.stands _ List.mem_cons_self
  have hvalid : v.Valid d points := h.valid _ List.mem_cons_self
  have hlisted : c.slots.get? d = some lease.cell := (h.leased _ List.mem_cons_self lease rfl).2
  have hothers := h.countP_working rfl hfree
  have hrested := h.rested ((List.countP_cons_of_neg Bool.false_ne_true).trans hothers)
  have hslot : c.slotOf d = c.cell lease.cell := by
    rw [slotOf, hlisted]
    rfl
  rw [← hslot]
  have hcount := Nat.lt_of_le_of_lt (h.length_sequences rfl rfl) hroom
  exact h.engaged rfl rfl hothers (Visit.work_asks hvalid _) id
    (Visit.work_assures hp hvalid hcount _ _ hrested)

/-- Beside a call that works nobody does. -/
theorem Orderly.others_idle {v : Visit} {lease : Lease} {m : Session Slot Visit.Reply}
    (h : { c with tasks := ⟨v, .working lease m⟩ :: others }.Orderly p d points) :
    others.countP Task.isWorking = 0 := by
  have halone := h.alone
  rw [List.countP_cons] at halone
  exact Nat.le_zero.mp (Nat.le_of_succ_le_succ halone)

/-- **The backend answers the call that has the lock.** -/
theorem Orderly.works {v : Visit} {lease : Lease} {s : Slot} {r : Request}
    {resume : r.Result → Session Slot Visit.Reply}
    (h : { c with tasks := ⟨v, .working lease (.ask s r resume)⟩ :: others }.Orderly p d points)
    (now : Duration) :
    { c.serve now r with tasks :=
      ⟨v, .working lease (resume (.ok (c.backend.memory.perform now r).1))⟩ :: others }.Orderly
      p d points := by
  have hasks : (Session.ask s r resume).Asks (Request.About d) := h.stands _ List.mem_cons_self
  have hreply := congrArg Prod.fst (c.backend.perform_holding now hasks.1)
  have hafter := congrArg Prod.snd (c.backend.perform_holding now hasks.1)
  obtain ⟨hadvances, hassured⟩ := h.assured _ List.mem_cons_self lease _ rfl now
  rw [← hreply, ← hafter] at hassured
  rw [← hafter] at hadvances
  exact h.engaged rfl rfl h.others_idle (hasks.2 _) hadvances.unlapsed hassured

/-- **The call that has the lock gives it back.** -/
theorem Orderly.unlocks {v : Visit} {lease : Lease} {slot : Slot}
    {result : Except FleetError Visit.Reply}
    (h : { c with tasks := ⟨v, .working lease (.done slot result)⟩ :: others }.Orderly
      p d points) :
    { c with
      cells := c.cells.set lease.cell slot
      tasks := ⟨v, .leaving lease result⟩ :: others }.Orderly p d points := by
  have hassured := h.assured _ List.mem_cons_self lease _ rfl
  cases result with
  | error e => exact hassured.elim
  | ok reply =>
    have hleaves : v.Leaves p d points (others.filterMap Task.sequence?).length reply slot
        (c.backend.holding d) := hassured
    have hothers := h.others_idle
    have hlisted := (h.leased _ List.mem_cons_self lease rfl).2
    have hmade : lease.cell < c.cells.length := h.made lease.cell hlisted
    have hslot : slotOf { c with cells := c.cells.set lease.cell slot } d = slot := by
      rw [slotOf, show c.slots.get? d = some lease.cell from hlisted]
      show ((c.cells.set lease.cell slot)[lease.cell]?).getD {} = slot
      rw [List.getElem?_set_self hmade]
      rfl
    -- what is brought now comes to what was brought before
    have hsequences : (Task.mk v (.leaving lease (.ok reply)) :: others).filterMap Task.sequence? =
        reply.sequence?.toList ++ others.filterMap Task.sequence? := by
      have hbrought : Task.sequence? ⟨v, .leaving lease (.ok reply)⟩ = reply.sequence? := rfl
      rw [List.filterMap_cons, hbrought]
      cases reply.sequence? <;> rfl
    have hlength : ((Task.mk v (.leaving lease (.ok reply)) :: others).filterMap
        Task.sequence?).length =
          (others.filterMap Task.sequence?).length + if v.isAppend then 1 else 0 := by
      rw [hsequences, ← Visit.Allows.sequence?_isSome hleaves.allows, List.length_append,
        Nat.add_comm]
      cases reply.sequence? <;> rfl
    exact
      { policy_eq := h.policy_eq
        valid := fun u hu => by
          rcases List.mem_cons.mp hu with rfl | hu
          · exact h.valid ⟨v, .working lease (.done slot (.ok reply))⟩ List.mem_cons_self
          · exact h.valid u (List.mem_cons_of_mem _ hu)
        stands := fun u hu => by
          rcases List.mem_cons.mp hu with rfl | hu
          · exact hleaves.allows
          · exact h.stands u (List.mem_cons_of_mem _ hu)
        leased := fun u hu lease' hlease' => by
          rcases List.mem_cons.mp hu with rfl | hu
          · obtain rfl := Option.some.inj hlease'
            exact h.leased _ List.mem_cons_self lease rfl
          · exact h.leased u (List.mem_cons_of_mem _ hu) lease' hlease'
        made := fun cell hcell => by
          rw [List.length_set]
          exact h.made cell hcell
        needed := fun cell hcell hlapsed => by
          have hneeded := h.needed cell hcell hlapsed
          rw [leases, List.countP_cons] at hneeded ⊢
          exact hneeded
        alone := by
          show (Task.mk v (.leaving lease (.ok reply)) :: others).countP Task.isWorking ≤ 1
          rw [List.countP_cons, hothers]
          exact Nat.zero_le 1
        rested := fun _ => by
          have hrested := hleaves.rested
          rw [← hlength, ← hslot] at hrested
          exact hrested
        assured := fun u hu lease' m' hm => by
          rcases List.mem_cons.mp hu with rfl | hu
          · cases hm
          · exact (not_working_of_countP hothers hu hm).elim
        numbered := fun hlapsed => by
          have hnumbered : ((others.filterMap Task.sequence?).map UInt64.toNat).Perm
              (List.range' 1 (others.filterMap Task.sequence?).length) := h.numbered hlapsed
          have hnext := hleaves.sequence_eq hlapsed
          show (((Task.mk v (.leaving lease (.ok reply)) :: others).filterMap
            Task.sequence?).map UInt64.toNat).Perm (List.range' 1 ((Task.mk v
              (.leaving lease (.ok reply)) :: others).filterMap Task.sequence?).length)
          rw [hsequences]
          cases hk : reply.sequence? with
          | none => exact hnumbered
          | some k =>
            show (k.toNat :: (others.filterMap Task.sequence?).map UInt64.toNat).Perm
              (List.range' 1 ((others.filterMap Task.sequence?).length + 1))
            rw [hnext k hk, List.range'_1_concat, Nat.add_comm 1]
            exact (hnumbered.cons _).trans (List.perm_append_singleton _ _).symm }

/-- Who has no lease has no lock. -/
theorem Standing.locked?_eq_none {stage : Standing} (h : stage.lease? = none) :
    stage.locked? = none := by
  cases stage <;> first | rfl | cases h

/-- If nobody else leases the one cell, nobody else has a lease. -/
theorem Orderly.lease?_eq_none (h : { c with tasks := t :: others }.Orderly p d points)
    {lease : Lease} (hlease : t.stage.lease? = some lease)
    (hleases : { c with tasks := others }.leases lease.cell = 0) {u : Task} (hu : u ∈ others) :
    u.stage.lease? = none := by
  cases hu' : u.stage.lease? with
  | none => rfl
  | some lease' =>
    have hcell := (h.leased t List.mem_cons_self lease hlease).2
    have hcell' := (h.leased u (List.mem_cons_of_mem t hu) lease' hu').2
    obtain heq : lease'.cell = lease.cell := Option.some.inj (hcell'.symm.trans hcell)
    refine absurd ?_ (List.countP_eq_zero.mp hleases u hu)
    rw [hu']
    exact decide_eq_true (congrArg some heq)

/-- **A lease is given back.** -/
theorem Orderly.checksIn {v : Visit} {lease : Lease} {result : Except FleetError Visit.Reply}
    (h : { c with tasks := ⟨v, .leaving lease result⟩ :: others }.Orderly p d points) :
    { { c with tasks := ⟨v, .leaving lease result⟩ :: others }.checkIn lease with
      tasks := ⟨v, .finished result⟩ :: others }.Orderly p d points := by
  obtain ⟨rfl, hlisted⟩ := h.leased _ List.mem_cons_self lease rfl
  have hallows : v.Allows result := h.stands _ List.mem_cons_self
  have hslot : c.slotOf lease.driverId = c.cell lease.cell := by
    rw [slotOf, show c.slots.get? lease.driverId = some lease.cell from hlisted]
    rfl
  have hreferences : { c with tasks := ⟨v, .leaving lease result⟩ :: others }.references lease =
      { c with tasks := others }.leases lease.cell + 2 := by
    rw [references, leases_cons_of_some c lease rfl, isListed, hlisted]
    simp
  by_cases hgone : { c with tasks := ⟨v, .leaving lease result⟩ :: others }.references lease = 2 ∧
      { c with tasks := ⟨v, .leaving lease result⟩ :: others }.isLocked lease.cell = false ∧
      (cell { c with tasks := ⟨v, .leaving lease result⟩ :: others } lease.cell).isDirty = false ∧
      { c with tasks := ⟨v, .leaving lease result⟩ :: others }.isListed lease
  · obtain ⟨htwo, -, hclean, -⟩ := id hgone
    have hothers : ∀ u ∈ others, u.stage.lease? = none := fun u hu =>
      h.lease?_eq_none rfl (Nat.add_right_cancel (hreferences.symm.trans htwo) : _ = 0) hu
    have hgone' : (c.slots.erase lease.driverId).get? lease.driverId = none := by simp
    rw [checkIn, if_pos hgone]
    refine h.idle { c with slots := c.slots.erase lease.driverId } ⟨v, .finished result⟩ rfl
      hallows rfl rfl rfl rfl rfl ?_ ?_ ?_ ?_
    · intro u hu lease' hlease'
      rcases List.mem_cons.mp hu with rfl | hu
      · cases hlease'
      · rw [hothers u hu] at hlease'
        cases hlease'
    · intro cell hcell
      rw [hgone'] at hcell
      cases hcell
    · intro cell hcell
      rw [hgone'] at hcell
      cases hcell
    · -- what the cell of a clean slot holds is known without it
      intro n hs
      rw [hslot] at hs
      rw [slotOf, hgone']
      exact ⟨hs.inStep.forget hclean, hs.legible, hs.length_arrivals, fun _ => rfl⟩
  · rw [checkIn, if_neg hgone]
    refine h.idle c ⟨v, .finished result⟩ rfl hallows rfl rfl rfl rfl rfl ?_ h.made ?_
      fun _ hs => hs
    · intro u hu lease' hlease'
      rcases List.mem_cons.mp hu with rfl | hu
      · cases hlease'
      · exact h.leased u (List.mem_cons_of_mem _ hu) lease' hlease'
    · -- a cell that stays on the map is one that somebody else leases
      intro cell hcell hlapsed
      obtain rfl := Option.some.inj (hlisted.symm.trans hcell)
      rw [leases_cons_of_none c rfl]
      refine Nat.pos_of_ne_zero fun hleases => hgone ?_
      have hothers : ∀ u ∈ others, u.stage.lease? = none := fun u hu =>
        h.lease?_eq_none rfl hleases hu
      have hidle : (Task.mk v (.leaving lease result) :: others).countP Task.isWorking = 0 := by
        refine List.countP_eq_zero.mpr fun u hu => ?_
        rcases List.mem_cons.mp hu with rfl | hu
        · exact Bool.false_ne_true
        · rw [Task.isWorking, Standing.locked?_eq_none (hothers u hu)]
          exact Bool.false_ne_true
      refine ⟨by rw [hreferences, hleases], ?_, ?_, ?_⟩
      · refine List.any_eq_false.mpr fun u hu => ?_
        rcases List.mem_cons.mp hu with rfl | hu
        · intro hlocked
          cases of_decide_eq_true hlocked
        · rw [Standing.locked?_eq_none (hothers u hu)]
          intro hlocked
          cases of_decide_eq_true hlocked
      · have hclean := (h.rested hidle).clean hlapsed
        rw [show slotOf { c with tasks := ⟨v, .leaving lease result⟩ :: others } lease.driverId =
          c.cell lease.cell from hslot] at hclean
        exact hclean
      · exact decide_eq_true hlisted

/-- **A call comes.** -/
theorem Orderly.joins (h : c.Orderly p d points) (hd : d.isEmpty = false) {v : Visit}
    (hv : v.Valid d points) :
    { c with tasks := ⟨v, .asking (v.operation p ())⟩ :: c.tasks }.Orderly p d points where
  policy_eq := h.policy_eq
  valid u hu := by
    rcases List.mem_cons.mp hu with rfl | hu
    · exact hv
    · exact h.valid u hu
  stands u hu := by
    rcases List.mem_cons.mp hu with rfl | hu
    · exact Visit.approaches_operation hd hv
    · exact h.stands u hu
  leased u hu lease hlease := by
    rcases List.mem_cons.mp hu with rfl | hu
    · cases hlease
    · exact h.leased u hu lease hlease
  made := h.made
  needed cell hcell hlapsed := by
    rw [leases_cons_of_none c rfl]
    exact h.needed cell hcell hlapsed
  alone := h.alone
  rested := h.rested
  assured u hu lease m hm := by
    rcases List.mem_cons.mp hu with rfl | hu
    · cases hm
    · exact h.assured u hu lease m hm
  numbered := h.numbered

end Steps

/-! ## From the first call to any -/

theorem checkIn_perm {tasks : List Task} (hperm : c.tasks.Perm tasks) (lease : Lease) :
    { c with tasks }.checkIn lease = { c.checkIn lease with tasks } := by
  have hreferences : { c with tasks }.references lease = c.references lease := by
    rw [references, references, leases, leases, hperm.countP_eq]
    rfl
  have hlocked : { c with tasks }.isLocked lease.cell = c.isLocked lease.cell :=
    hperm.symm.any_eq
  rw [checkIn, checkIn, hreferences, hlocked]
  split
  · rw [if_pos ‹_›]
  · rw [if_neg ‹_›]

/-- **What is kept if the first call moves on is kept if any does.** -/
theorem Orderly.move {c' : Crowd} {i : Nat} {t : Task} {v : Visit} {stage : Standing}
    {before after : List Task} (hi : before.length = i) (htasks : c'.tasks = before ++ t :: after)
    (h : { c' with tasks := ⟨v, stage⟩ :: (before ++ after) }.Orderly p d points) :
    (c'.move i v stage).Orderly p d points := by
  have hset : c'.tasks.set i ⟨v, stage⟩ = before ++ ⟨v, stage⟩ :: after := by
    rw [htasks, ← hi, List.set_append_right _ _ (Nat.le_refl _), Nat.sub_self]
    rfl
  rw [Crowd.move, hset]
  exact h.perm List.perm_middle.symm

/-- **A step of a call keeps the calls apart.** -/
theorem Orderly.act (h : c.Orderly p d points) (hp : p.Legible d points)
    (hroom : c.appends < 2 ^ 64) (i : Nat) (now : Duration) :
    (c.act i now).Orderly p d points := by
  rw [Crowd.act]
  split
  · exact h
  rename_i v stage hget
  obtain ⟨hi, hget⟩ := List.getElem?_eq_some_iff.mp hget
  have htasks : c.tasks = c.tasks.take i ++ ⟨v, stage⟩ :: c.tasks.drop (i + 1) := by
    rw [← hget, List.getElem_cons_drop, List.take_append_drop]
  have hperm : c.tasks.Perm (⟨v, stage⟩ :: (c.tasks.take i ++ c.tasks.drop (i + 1))) :=
    (List.Perm.of_eq htasks).trans List.perm_middle
  replace hi := List.length_take_of_le (Nat.le_of_lt hi)
  have hfirst := h.perm hperm
  have hmember : (⟨v, stage⟩ : Task) ∈ c.tasks := hperm.mem_iff.mpr List.mem_cons_self
  have hstands := h.stands _ hmember
  cases stage with
  | asking m =>
    rcases m with ⟨_, _ | _ | _⟩ | _
    · exact Orderly.move hi htasks (hfirst.answers hstands rfl)
    · exact Orderly.move hi htasks (hfirst.answers hstands.1 hstands.2)
    · exact Orderly.move hi ((tasks_checkOut c _).trans htasks) hfirst.checksOut
    · exact Orderly.move hi htasks (hfirst.asks now)
  | waiting lease rest =>
    dsimp only
    split
    · exact h
    · rename_i hfree
      refine Orderly.move hi htasks (hfirst.locks hp ?_ fun u hu hlocked => hfree ?_)
      · rwa [appends, hperm.countP_eq] at hroom
      · exact List.any_eq_true.mpr
          ⟨u, hperm.mem_iff.mpr (List.mem_cons_of_mem _ hu), decide_eq_true hlocked⟩
  | working lease m =>
    cases m with
    | ask s r resume => exact Orderly.move hi htasks (hfirst.works now)
    | done slot result => exact Orderly.move hi htasks hfirst.unlocks
  | leaving lease result =>
    have hleft := hfirst.checksIn
    rw [checkIn_perm hperm] at hleft
    exact Orderly.move hi ((tasks_checkIn c lease).trans htasks) hleft
  | finished result => exact h

/-- **Whatever happens keeps the calls apart.** -/
theorem Orderly.next (h : c.Orderly p d points) (hp : p.Legible d points)
    (hd : d.isEmpty = false) (hroom : c.appends < 2 ^ 64) (e : Event)
    (hvalid : ∀ v, e = .join v → v.Valid d points) : (c.next e).Orderly p d points := by
  cases e with
  | join v =>
    have hjoined := h.joins hd (hvalid v rfl)
    obtain rfl := h.policy_eq
    exact hjoined.perm (List.perm_append_singleton _ _).symm
  | act i now => exact h.act hp hroom i now

end Crowd

end Fleet
