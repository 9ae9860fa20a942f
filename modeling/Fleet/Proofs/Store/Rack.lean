import Fleet.Proofs.Store.Crowd

/-!
# Slots in cells

A store keeps the slots of drivers in cells to which its map and the leases refer.  An operation
leases the cell of its driver, takes its lock, works, gives the lock back and then the lease, and it
does so however it ends, also where it is cancelled.  Who gives a lease back takes the cell off the
map if only the map and this lease refer to it, its lock can be had, it is clean, and it is still
the driver's.  For operations that follow one another this comes to what `TrackStore.release` says,
whatever becomes of their requests: `Mirrors.run`.
-/

namespace Fleet

/-- **A cell:** a slot, a lock, and a count of those who refer to the cell. -/
structure Rack.Cell where
  slot : Slot := {}
  references : Nat
  isLocked : Bool := false
deriving DecidableEq

/-- **The slots of a store in cells.** -/
structure Rack where
  /-- All cells that were ever made. -/
  cells : List Rack.Cell := []
  /-- The cell that is a driver's. -/
  slots : Table String Nat := ∅

namespace Rack

/-- What a cell holds.  Nobody refers to a cell that was never made. -/
def cell (k : Rack) (i : Nat) : Cell := (k.cells[i]?).getD { references := 0 }

/-- The cell that is a driver's, with what it holds. -/
def cellOf? (k : Rack) (driverId : String) : Option (Option Cell) :=
  (k.slots.get? driverId).map (k.cells[·]?)

/-- A cell is changed. -/
def modify (k : Rack) (i : Nat) (f : Cell → Cell) : Rack := { k with cells := k.cells.modify i f }

/-- The cell of a driver is leased.  To one that is made for it the map and the lease refer. -/
def checkOut (k : Rack) (driverId : String) : Lease × Rack :=
  match k.slots.get? driverId with
  | some i => (⟨driverId, i⟩, k.modify i fun c => { c with references := c.references + 1 })
  | none => (⟨driverId, k.cells.length⟩,
      { cells := k.cells ++ [{ references := 2 }]
        slots := k.slots.insert driverId k.cells.length })

/-- The lock of a leased cell is taken. -/
def lock (k : Rack) (lease : Lease) : Rack :=
  k.modify lease.cell fun c => { c with isLocked := true }

/-- Who has the lock of a cell writes its slot. -/
def write (k : Rack) (lease : Lease) (slot : Slot) : Rack :=
  k.modify lease.cell fun c => { c with slot }

/-- The lock is given back. -/
def unlock (k : Rack) (lease : Lease) : Rack :=
  k.modify lease.cell fun c => { c with isLocked := false }

/-- Whether the cell of a lease is no longer needed when the lease is given back. -/
def isSpare (k : Rack) (lease : Lease) : Bool :=
  (k.cell lease.cell).references = 2 && !(k.cell lease.cell).isLocked &&
    !(k.cell lease.cell).slot.isDirty && k.slots.get? lease.driverId = some lease.cell

/-- **A lease is given back.** -/
def checkIn (k : Rack) (lease : Lease) : Rack :=
  if k.isSpare lease then
    { k.modify lease.cell fun c => { c with references := c.references - 2 } with
      slots := k.slots.erase lease.driverId }
  else k.modify lease.cell fun c => { c with references := c.references - 1 }

/-- **Runs an operation against a backend.**  One that finds the lock of its cell taken waits until
it is cancelled. -/
def run {α β : Type} (serve : Server β) (k : Rack) (backend : β)
    (operation : Query Unit (Phase α)) : Outcome α × Rack × β :=
  match (operation ()).run serve backend with
  | (.stalled, _, backend) => (.stalled, k, backend)
  | (.finished (.error e), _, backend) => (.finished (.error e), k, backend)
  | (.finished (.ok (.answered a)), _, backend) => (.finished (.ok a), k, backend)
  | (.finished (.ok (.leased driverId rest)), _, backend) =>
    let (lease, k) := k.checkOut driverId
    if (k.cell lease.cell).isLocked then (.stalled, k.checkIn lease, backend)
    else
      let k := k.lock lease
      let (outcome, slot, backend) := (rest (k.cell lease.cell).slot).run serve backend
      (outcome, ((k.write lease slot).unlock lease).checkIn lease, backend)

/-! ## Cells and slots -/

/-- **A rack has the slots of a store** between operations: each in a cell of its own, to which only
the map refers, and whose lock nobody has. -/
structure Mirrors (k : Rack) (st : TrackStore) : Prop where
  shows : ∀ d, k.cellOf? d = (st.slots.get? d).map fun slot => some { slot, references := 1 }
  distinct : ∀ d e i, k.slots.get? d = some i → k.slots.get? e = some i → d = e

/-- **One cell is out on lease,** and the others are as the store has them. -/
structure Leased (k : Rack) (st : TrackStore) (lease : Lease) (c : Cell) : Prop where
  listed : k.slots.get? lease.driverId = some lease.cell
  cell_eq : k.cells[lease.cell]? = some c
  others : ∀ e, lease.driverId ≠ e →
    k.cellOf? e = (st.slots.get? e).map fun slot => some { slot, references := 1 }
  distinct : ∀ d e i, k.slots.get? d = some i → k.slots.get? e = some i → d = e

variable {k : Rack} {st : TrackStore} {lease : Lease} {c : Cell} {d : String}

theorem mirrors_new (policy : TrackPolicy) : ({} : Rack).Mirrors (.new policy) where
  shows _ := rfl
  distinct _ _ _ h := nomatch h

/-- A rack has a cell for a driver just if the store has a slot. -/
theorem Mirrors.isSome_eq (h : k.Mirrors st) (d : String) :
    (k.slots.get? d).isSome = (st.slots.get? d).isSome := by
  have hshows := congrArg Option.isSome (h.shows d)
  rwa [cellOf?, Option.isSome_map, Option.isSome_map] at hshows

/-- A change of one cell shows only where the cell is a driver's. -/
theorem cellOf?_modify {i : Nat} (hne : k.slots.get? d ≠ some i) (f : Cell → Cell) :
    (k.modify i f).cellOf? d = k.cellOf? d := by
  show (k.slots.get? d).map ((k.cells.modify i f)[·]?) = (k.slots.get? d).map (k.cells[·]?)
  cases hget : k.slots.get? d with
  | none => rfl
  | some j =>
    have hij : i ≠ j := by
      rintro rfl
      exact hne hget
    simp [List.getElem?_modify, hij]

/-- A cell that is made shows nowhere as long as the map does not have it. -/
theorem cellOf?_append {cells : List Cell} {slots : Table String Nat}
    (hmade : ∀ i, slots.get? d = some i → i < cells.length) (c : Cell) :
    cellOf? { cells := cells ++ [c], slots } d = cellOf? { cells, slots } d := by
  show (slots.get? d).map ((cells ++ [c])[·]?) = (slots.get? d).map (cells[·]?)
  cases hget : slots.get? d with
  | none => rfl
  | some i => simp [List.getElem?_append_left (hmade i hget)]

/-- The map only has cells that were made. -/
theorem Mirrors.made (h : k.Mirrors st) {i : Nat} (hi : k.slots.get? d = some i) :
    i < k.cells.length := by
  have hshows := h.shows d
  rw [cellOf?, hi] at hshows
  obtain ⟨slot, -, hcell⟩ := Option.map_eq_some_iff.mp hshows.symm
  exact (List.getElem?_eq_some_iff.mp hcell.symm).1

theorem Leased.cell (h : k.Leased st lease c) : k.cell lease.cell = c := by
  rw [Rack.cell, h.cell_eq, Option.getD_some]

theorem Leased.modify (h : k.Leased st lease c) (f : Cell → Cell) :
    (k.modify lease.cell f).Leased st lease (f c) where
  listed := h.listed
  cell_eq := by
    show (k.cells.modify lease.cell f)[lease.cell]? = _
    rw [List.getElem?_modify, h.cell_eq]
    simp
  others e he := by
    rw [cellOf?_modify (fun hget => he (h.distinct _ _ _ h.listed hget)), h.others e he]
  distinct := h.distinct

/-- **Who leases a driver's cell finds the driver's slot in it,** or a blank one. -/
theorem Mirrors.checkOut (h : k.Mirrors st) (d : String) :
    (k.checkOut d).1.driverId = d ∧
      (k.checkOut d).2.Leased st (k.checkOut d).1 { slot := st.slotOf d, references := 2 } := by
  have hshows := h.shows d
  unfold Rack.checkOut
  cases hget : k.slots.get? d with
  | some i =>
    rw [cellOf?, hget] at hshows
    obtain ⟨slot, hslot, hcell⟩ := Option.map_eq_some_iff.mp hshows.symm
    have hleased : k.Leased st ⟨d, i⟩ { slot, references := 1 } :=
      ⟨hget, hcell.symm, fun e _ => h.shows e, h.distinct⟩
    refine ⟨rfl, ?_⟩
    rw [TrackStore.slotOf, hslot]
    exact hleased.modify fun c => { c with references := c.references + 1 }
  | none =>
    rw [cellOf?, hget] at hshows
    have hslot : st.slots.get? d = none := Option.map_eq_none_iff.mp hshows.symm
    refine ⟨rfl, ?_, ?_, fun e he => ?_, fun e f i he hf => ?_⟩
    · rw [Table.get?_insert, if_pos rfl]
    · rw [List.getElem?_concat_length, TrackStore.slotOf, hslot]
      rfl
    · rw [cellOf?_append fun i hi => ?_]
      · rw [← h.shows e]
        show ((k.slots.insert d _).get? e).map _ = _
        rw [Table.get?_insert, if_neg he]
        rfl
      · rw [Table.get?_insert, if_neg he] at hi
        exact h.made hi
    · -- the new cell is no other driver's
      rw [Table.get?_insert] at he hf
      split at he <;> split at hf
      · exact ‹d = e›.symm.trans ‹d = f›
      · obtain rfl := Option.some.inj he
        exact absurd (h.made hf) (Nat.lt_irrefl _)
      · obtain rfl := Option.some.inj hf
        exact absurd (h.made he) (Nat.lt_irrefl _)
      · exact h.distinct e f i he hf

/-- **When the only lease is given back,** the map keeps the cell just if its slot is dirty. -/
theorem Leased.checkIn {slot : Slot} (h : k.Leased st lease { slot, references := 2 }) :
    (k.checkIn lease).Mirrors (st.release lease.driverId slot) := by
  unfold Rack.checkIn
  cases hdirty : slot.isDirty with
  | true =>
    have hneeded : k.isSpare lease = false := by simp [isSpare, h.cell, hdirty]
    have hkept := h.modify fun c => { c with references := c.references - 1 }
    rw [hneeded, if_neg Bool.false_ne_true]
    refine ⟨fun e => ?_, hkept.distinct⟩
    rw [TrackStore.release, hdirty, if_pos rfl, Table.get?_insert]
    split
    · rename_i he
      subst he
      rw [cellOf?, hkept.listed, Option.map_some, hkept.cell_eq]
      rfl
    · exact hkept.others e ‹_›
  | false =>
    have hspare : k.isSpare lease = true := by simp [isSpare, h.cell, hdirty, h.listed]
    have hlast := h.modify fun c => { c with references := c.references - 2 }
    rw [hspare, if_pos rfl]
    refine ⟨fun e => ?_, fun e f i he hf => ?_⟩
    · rw [TrackStore.release, hdirty, if_neg Bool.false_ne_true, Table.get?_erase, cellOf?,
        Table.get?_erase]
      split
      · rfl
      · exact hlast.others e ‹_›
    · rw [Table.get?_erase] at he hf
      split at he
      · cases he
      · split at hf
        · cases hf
        · exact h.distinct e f i he hf

/-- **An operation that has the rack for itself does what it does in the store.** -/
theorem Mirrors.run {α β : Type} (h : k.Mirrors st) (hfree : st.held = none) (serve : Server β)
    (backend : β) (operation : Query Unit (Phase α)) :
    (k.run serve backend operation).1 = (st.run serve backend operation).1 ∧
      (k.run serve backend operation).2.1.Mirrors (st.run serve backend operation).2.1 ∧
      (k.run serve backend operation).2.2 = (st.run serve backend operation).2.2 := by
  unfold Rack.run TrackStore.run
  rcases (operation ()).run serve backend with ⟨⟨_ | answer | ⟨d, rest⟩⟩ | _, _, after⟩
  · exact ⟨rfl, h, rfl⟩
  · exact ⟨rfl, h, rfl⟩
  · obtain ⟨hdriver, hleased⟩ := h.checkOut d
    have hnotHeld : st.held ≠ some d := by
      rw [hfree]
      exact nofun
    dsimp only
    rw [if_neg hnotHeld, hleased.cell, if_neg Bool.false_ne_true]
    have hlocked := hleased.modify fun c => { c with isLocked := true }
    change ((k.checkOut d).2.lock (k.checkOut d).1).Leased _ _ _ at hlocked
    rw [hlocked.cell]
    refine ⟨rfl, ?_, rfl⟩
    have hwritten := hlocked.modify fun c =>
      { c with slot := ((rest (st.slotOf d)).run serve after).2.1 }
    have hunlocked := hwritten.modify fun c => { c with isLocked := false }
    have hback := hunlocked.checkIn
    rw [hdriver] at hback
    exact hback
  · exact ⟨rfl, h, rfl⟩

/-- Who gives the lease back before the lock leaves a clean cell on the map. -/
example :
    let (lease, k) := ({} : Rack).checkOut "d"
    ((k.lock lease).unlock lease |>.checkIn lease).slots.size = 0 ∧
      ((k.lock lease).checkIn lease |>.unlock lease).slots.size = 1 := by
  decide

end Rack

end Fleet
