import Mathlib.Algebra.GroupWithZero.Nat
import Mathlib.Data.List.Dedup
import Mathlib.Data.List.Nodup
import Fleet.Index.Operation

/-!
# The two tables of an index agree

An index keeps every driver twice: with its position, and in the list of its cell.  `Consistent`
says that the two agree, and every operation keeps it (`Consistent.run`), so it holds after every
history (`consistent_after`).

What a change does to the lists is said once for each operation (`driversIn_place`,
`driversIn_remove`); in a consistent index taking a driver off every list is the same as taking it
off the list of its cell.
-/

namespace Fleet
namespace Index

/-! ## Cell lists -/

/-- The drivers that cell lists list for a cell. -/
def listOf (members : Table Cell (List String)) (cell : Cell) : List String :=
  (members.get? cell).getD []

/-- No cell has an empty list. -/
def Occupied (members : Table Cell (List String)) : Prop :=
  ∀ cell ids, members.get? cell = some ids → ids ≠ []

section Lists

variable (members : Table Cell (List String)) (cell other : Cell) (driverId : String)

theorem listOf_link :
    listOf (link members cell driverId) other =
      if cell = other then listOf members other ++ [driverId] else listOf members other := by
  rw [listOf, link, Table.get?_insert]
  split
  · rename_i h
    rw [← h]
    rfl
  · rfl

theorem listOf_unlink :
    listOf (unlink members cell driverId) other =
      if cell = other then (listOf members other).filter (· ≠ driverId)
      else listOf members other := by
  unfold unlink
  cases hc : members.get? cell with
  | none =>
    by_cases h : cell = other
    · rw [if_pos h, ← h, listOf, hc]
      rfl
    · rw [if_neg h]
  | some ids =>
    by_cases h : cell = other
    · subst h
      simp only [if_true]
      split
      · rename_i hempty
        simp only [listOf, Table.get?_erase, if_true, hc, Option.getD_some, Option.getD_none]
        exact (List.isEmpty_iff.mp hempty).symm
      · simp [listOf, hc]
    · simp only [if_neg h]
      split <;> simp [listOf, h]

variable {members}

theorem occupied_link (h : Occupied members) : Occupied (link members cell driverId) := by
  intro other ids hget
  rw [link, Table.get?_insert] at hget
  split at hget
  · rw [← Option.some.inj hget]
    simp
  · exact h other ids hget

theorem occupied_unlink (h : Occupied members) : Occupied (unlink members cell driverId) := by
  intro other ids hget
  unfold unlink at hget
  split at hget
  · exact h other ids hget
  · simp only at hget
    split at hget
    · rw [Table.get?_erase] at hget
      split at hget
      · cases hget
      · exact h other ids hget
    · rename_i hne
      rw [Table.get?_insert] at hget
      split at hget
      · rw [← Option.some.inj hget]
        exact fun he => hne (List.isEmpty_iff.mpr he)
      · exact h other ids hget

end Lists

/-! ## Consistency -/

/-- **Drivers and cell lists agree.** -/
structure Consistent (ix : Index) : Prop where
  /-- The cell kept with a driver is the cell of its position. -/
  cell_eq : ∀ {id p}, ix.drivers.get? id = some p →
    p.cell = ix.cellOf p.position.latitude p.position.longitude
  /-- A cell lists the drivers placed in it and nobody else. -/
  mem_driversIn : ∀ {cell id}, id ∈ ix.driversIn cell ↔
    ∃ p, ix.drivers.get? id = some p ∧ p.cell = cell
  nodup_driversIn : ∀ cell, (ix.driversIn cell).Nodup
  occupied : Occupied ix.members

/-- An index without drivers is consistent. -/
theorem consistent_new (config : IndexConfig) (t : Trigonometry := .machine) :
    (new config t).Consistent where
  cell_eq := fun h => by cases h
  mem_driversIn := by
    intro cell id
    constructor
    · intro h
      cases h
    · rintro ⟨p, h, -⟩
      cases h
  nodup_driversIn := fun _ => List.nodup_nil
  occupied := fun _ _ h => by cases h

section Changes

variable {ix : Index} (h : ix.Consistent) (driverId : String) (position : Position)

/-- The cell that an index keeps with a driver. -/
def homeOf (ix : Index) (driverId : String) : Option Cell :=
  (ix.drivers.get? driverId).map Placement.cell

include h

/-- In a consistent index a driver is on the list of its home alone. -/
theorem Consistent.mem_iff_homeOf {cell : Cell} {id : String} :
    id ∈ ix.driversIn cell ↔ ix.homeOf id = some cell := by
  rw [h.mem_driversIn, homeOf, Option.map_eq_some_iff]

/-- Taking a driver off the list of a cell that is not its home changes nothing. -/
theorem Consistent.filter_driversIn {cell : Cell} {id : String}
    (hne : ix.homeOf id ≠ some cell) :
    (ix.driversIn cell).filter (· ≠ id) = ix.driversIn cell := by
  refine List.filter_eq_self.mpr fun other hother => decide_eq_true ?_
  rintro rfl
  exact hne (h.mem_iff_homeOf.mp hother)

/-- **The lists after a position is set.**  Within one cell nothing moves; else the driver leaves
its list and enters that of its new cell at the end. -/
theorem driversIn_place (cell : Cell) :
    (ix.place driverId position).driversIn cell =
      if ix.homeOf driverId = some (ix.cellOf position.latitude position.longitude) then
        ix.driversIn cell
      else
        (ix.driversIn cell).filter (· ≠ driverId) ++
          if ix.cellOf position.latitude position.longitude = cell then [driverId] else [] := by
  -- the new cell is named so that its comparison with the old one does not unfold
  generalize hc : ix.cellOf position.latitude position.longitude = home
  have hplace : (ix.place driverId position).driversIn cell =
      listOf (ix.place driverId position).members cell := rfl
  rw [hplace]
  simp only [place, hc]
  cases hd : ix.drivers.get? driverId with
  | none =>
    have hhome : ix.homeOf driverId = none := by rw [homeOf, hd]; rfl
    rw [if_neg (by simp [hhome]), h.filter_driversIn (by simp [hhome])]
    simp only [listOf_link]
    split
    · rfl
    · exact (List.append_nil _).symm
  | some old =>
    have hhome : ix.homeOf driverId = some old.cell := by rw [homeOf, hd]; rfl
    simp only [hhome, Option.some.injEq]
    by_cases hsame : old.cell = home
    · rw [if_pos hsame, if_pos hsame]
      rfl
    · rw [if_neg hsame, if_neg hsame, listOf_link, listOf_unlink]
      by_cases hold : old.cell = cell
      · rw [if_pos hold, if_neg (fun he => hsame (hold.trans he.symm)),
          if_neg (fun he => hsame (hold.trans he.symm)), List.append_nil]
        rfl
      · rw [if_neg hold, h.filter_driversIn (by simp [hhome, hold])]
        split
        · rfl
        · exact (List.append_nil _).symm

/-- **The lists after a driver is dropped.** -/
theorem driversIn_remove (cell : Cell) :
    (ix.remove driverId).driversIn cell = (ix.driversIn cell).filter (· ≠ driverId) := by
  unfold remove
  cases hd : ix.drivers.get? driverId with
  | none =>
    have hhome : ix.homeOf driverId = none := by rw [homeOf, hd]; rfl
    exact (h.filter_driversIn (by simp [hhome])).symm
  | some old =>
    have hhome : ix.homeOf driverId = some old.cell := by rw [homeOf, hd]; rfl
    show listOf (unlink ix.members old.cell driverId) cell = _
    rw [listOf_unlink]
    by_cases hold : old.cell = cell
    · rw [if_pos hold]
      rfl
    · rw [if_neg hold, h.filter_driversIn (by simp [hhome, hold])]
      rfl

omit h

theorem drivers_remove (id : String) :
    (ix.remove driverId).drivers.get? id = if driverId = id then none else ix.drivers.get? id := by
  unfold remove
  cases hd : ix.drivers.get? driverId with
  | none =>
    by_cases he : driverId = id
    · rw [if_pos he, ← he, hd]
    · rw [if_neg he]
  | some old => exact Table.get?_erase ..

theorem lookup_place (id : String) : (ix.place driverId position).lookup id =
    if driverId = id then some position else ix.lookup id := by
  rw [lookup, place, Table.get?_insert]
  split <;> rfl

theorem lookup_remove (id : String) :
    (ix.remove driverId).lookup id = if driverId = id then none else ix.lookup id := by
  rw [lookup, drivers_remove]
  split <;> rfl

theorem config_remove : (ix.remove driverId).config = ix.config := by
  unfold remove
  split <;> rfl

theorem trigonometry_remove : (ix.remove driverId).trigonometry = ix.trigonometry := by
  unfold remove
  split <;> rfl

include h

theorem Consistent.place : (ix.place driverId position).Consistent where
  cell_eq := by
    intro id p hp
    have hp' : (ix.drivers.insert driverId
        ⟨position, ix.cellOf position.latitude position.longitude⟩).get? id = some p := hp
    rw [Table.get?_insert] at hp'
    split at hp'
    · rw [← Option.some.inj hp']
      rfl
    · exact h.cell_eq hp'
  mem_driversIn := by
    intro cell id
    have hget : (ix.place driverId position).drivers.get? id =
        if driverId = id then some ⟨position, ix.cellOf position.latitude position.longitude⟩
        else ix.drivers.get? id := Table.get?_insert ..
    rw [driversIn_place h, hget]
    by_cases hid : driverId = id
    · subst hid
      split
      · rename_i hhome
        simp [h.mem_iff_homeOf, hhome]
      · simp only [if_true, List.mem_append, List.mem_filter, ne_eq, not_true_eq_false,
          decide_false, Bool.false_eq_true, and_false, false_or, Option.some.injEq,
          exists_eq_left']
        split <;> simp_all
    · have hne : id ≠ driverId := Ne.symm hid
      rw [if_neg hid, ← h.mem_driversIn]
      split
      · rfl
      · simp only [List.mem_append, List.mem_filter, decide_eq_true hne, and_true]
        split <;> simp [hne]
  nodup_driversIn := by
    intro cell
    rw [driversIn_place h]
    split
    · exact h.nodup_driversIn cell
    · -- the driver is not among those who are left when it enters
      refine List.nodup_append.mpr ⟨(h.nodup_driversIn cell).filter _, ?_, ?_⟩
      · split <;> simp
      · rintro a ha b hb rfl
        split at hb
        · rw [List.mem_singleton.mp hb] at ha
          simp at ha
        · cases hb
  occupied := by
    simp only [Index.place]
    split
    · exact occupied_link _ _ h.occupied
    · split
      · exact h.occupied
      · exact occupied_link _ _ (occupied_unlink _ _ h.occupied)

theorem Consistent.remove : (ix.remove driverId).Consistent where
  cell_eq := by
    intro id p hp
    rw [drivers_remove] at hp
    split at hp
    · cases hp
    · rw [cellOf, config_remove]
      exact h.cell_eq hp
  mem_driversIn := by
    intro cell id
    rw [driversIn_remove h, drivers_remove, List.mem_filter, h.mem_driversIn]
    by_cases hid : driverId = id
    · simp [hid]
    · simp [hid, Ne.symm hid]
  nodup_driversIn := by
    intro cell
    rw [driversIn_remove h]
    exact (h.nodup_driversIn cell).filter _
  occupied := by
    unfold Index.remove
    split
    · exact h.occupied
    · exact occupied_unlink _ _ h.occupied

theorem Consistent.foldl_remove (ids : List String) : (ids.foldl Index.remove ix).Consistent := by
  induction ids generalizing ix with
  | nil => exact h
  | cons id ids ih => exact ih (h.remove id)

end Changes

/-! ## Searches -/

section Searches

variable {ix : Index} (h : ix.Consistent)
include h

/-- A driver on a list belongs there. -/
theorem Consistent.placement?_eq {cell : Cell} {id : String} (hid : id ∈ ix.driversIn cell) :
    ix.placement? cell id = ix.drivers.get? id := by
  obtain ⟨p, hp, rfl⟩ := h.mem_driversIn.mp hid
  have hcell := h.cell_eq hp
  simp [placement?, hp, belongs, hcell]

/-- **A search never meets a driver that does not belong where it is listed.** -/
theorem Consistent.misplaced_listed (cells : List Cell) : misplaced (ix.listed cells) = [] := by
  rw [misplaced, List.map_eq_nil_iff, List.filter_eq_nil_iff]
  intro e he
  obtain ⟨cell, -, he⟩ := List.mem_flatMap.mp he
  obtain ⟨id, hid, rfl⟩ := List.mem_map.mp he
  obtain ⟨p, hp, -⟩ := h.mem_driversIn.mp hid
  simp [h.placement?_eq hid, hp]

/-- **What a search of a consistent index answers:** only a coordinate can be wrong. -/
theorem Consistent.nearest_eq (latitude longitude : Float) (limit : Nat) :
    ix.nearest latitude longitude limit =
      if Geo.isValid latitude longitude then
        .ok (ranked (candidates ix.trigonometry latitude longitude
          (ix.listed (ix.scannedCells latitude longitude))) limit)
      else .error (.invalidCoordinate latitude longitude) := by
  unfold nearest Geo.validate
  split
  · show (if limit = 0 then _ else _) = _
    simp only [h.misplaced_listed]
    split
    · rename_i hlimit
      rw [hlimit]
      rfl
    · rfl
  · rfl

/-- A search leaves a consistent index as it is. -/
theorem Consistent.afterNearest_eq (latitude longitude : Float) (limit : Nat) :
    ix.afterNearest latitude longitude limit = ix := by
  -- with nobody to evict, the walk over the cells does nothing
  have hkeep : ∀ cells : List Cell,
      cells.foldl (fun (members : Table Cell (List String)) _ => members) ix.members =
        ix.members := by
    intro cells
    induction cells with
    | nil => rfl
    | cons cell cells ih => exact ih
  unfold afterNearest
  split
  · rw [h.misplaced_listed]
    simp only [evict, List.foldl_nil, hkeep]
  · rfl

end Searches

/-! ## Histories -/

/-- **Every operation keeps an index consistent.** -/
theorem Consistent.run {ix : Index} (h : ix.Consistent) (op : Operation) :
    (ix.run op).2.Consistent := by
  cases op with
  | update driverId latitude longitude observedAt =>
    rw [Index.run, update]
    cases driverId.isEmpty with
    | true => exact h
    | false =>
      cases hmake : Position.make latitude longitude observedAt with
      | error e => exact h
      | ok position => exact h.place driverId position
  | nearest latitude longitude limit =>
    show (ix.afterNearest latitude longitude limit).Consistent
    rw [h.afterNearest_eq]
    exact h
  | sweep now limit => exact h.foldl_remove _
  | sweepStale now => exact h.foldl_remove _
  | remove driverId => exact h.remove driverId
  | lookup | driversIn | cellOf | records | stats | size => exact h

theorem Consistent.after {ix : Index} (h : ix.Consistent) (history : List Operation) :
    (ix.after history).Consistent := by
  induction history generalizing ix with
  | nil => exact h
  | cons op history ih => exact ih (h.run op)

/-- **An index is consistent after every history.** -/
theorem consistent_after (config : IndexConfig) (history : List Operation) :
    ((new config).after history).Consistent :=
  (consistent_new config).after history

/-! ## What consistency comes to -/

section Consequences

variable {ix : Index} (h : ix.Consistent)
include h

/-- A driver is listed once, by the cell of its position. -/
theorem Consistent.count_driversIn {id : String} {p : Placement}
    (hp : ix.drivers.get? id = some p) (cell : Cell) :
    (ix.driversIn cell).count id =
      if cell = ix.cellOf p.position.latitude p.position.longitude then 1 else 0 := by
  rw [← h.cell_eq hp]
  split
  · rename_i hcell
    exact List.count_eq_one_of_mem (h.nodup_driversIn cell)
      (h.mem_driversIn.mpr ⟨p, hp, hcell.symm⟩)
  · rename_i hcell
    apply List.count_eq_zero_of_not_mem
    intro hmem
    apply hcell
    obtain ⟨q, hq, rfl⟩ := h.mem_driversIn.mp hmem
    rw [Option.some.inj (hq.symm.trans hp)]

/-- The cells that have a list are the cells of the present drivers. -/
theorem Consistent.mem_keys_members {cell : Cell} :
    cell ∈ ix.members.keys ↔ ∃ id, ix.homeOf id = some cell := by
  rw [Table.mem_keys_iff]
  constructor
  · rintro ⟨ids, hids⟩
    obtain ⟨id, hid⟩ := List.exists_mem_of_ne_nil ids (h.occupied cell ids hids)
    refine ⟨id, h.mem_iff_homeOf.mp ?_⟩
    rw [driversIn, hids]
    exact hid
  · rintro ⟨id, hid⟩
    have hmem := h.mem_iff_homeOf.mpr hid
    cases hget : ix.members.get? cell with
    | none =>
      rw [driversIn, hget] at hmem
      cases hmem
    | some ids => exact ⟨ids, rfl⟩

/-- The number of lists is the number of cells in which drivers are. -/
theorem Consistent.size_members :
    ix.members.size = ((ix.drivers.entries.map fun e =>
      ix.cellOf e.2.position.latitude e.2.position.longitude).dedup).length := by
  have hkeys : ix.members.size = ix.members.keys.length := (List.length_map ..).symm
  rw [hkeys]
  refine List.Perm.length_eq ((List.perm_ext_iff_of_nodup ix.members.distinct
    (List.nodup_dedup _)).mpr fun cell => ?_)
  rw [List.mem_dedup]
  refine h.mem_keys_members.trans (Iff.trans ⟨?_, ?_⟩ List.mem_map.symm)
  · rintro ⟨id, hid⟩
    obtain ⟨p, hp, rfl⟩ := Option.map_eq_some_iff.mp hid
    exact ⟨(id, p), Table.mem_entries_iff.mpr hp, (h.cell_eq hp).symm⟩
  · rintro ⟨⟨id, p⟩, he, rfl⟩
    have hp := Table.mem_entries_iff.mp he
    exact ⟨id, Option.map_eq_some_iff.mpr ⟨p, hp, h.cell_eq hp⟩⟩

/-- All lists together are the drivers, each once. -/
theorem Consistent.perm_lists :
    (ix.members.entries.flatMap Prod.snd).Perm ix.drivers.keys := by
  have hlist : ∀ e ∈ ix.members.entries, e.2 = ix.driversIn e.1 := by
    intro e he
    rw [driversIn, Table.mem_entries_iff.mp he]
    rfl
  refine (List.perm_ext_iff_of_nodup ?_ ix.drivers.distinct).mpr fun id => ?_
  · refine List.nodup_flatMap.mpr ⟨fun e he => ?_, ?_⟩
    · rw [hlist e he]
      exact h.nodup_driversIn e.1
    · -- lists of different cells have nobody in common, for a driver has one home
      have hdistinct := List.pairwise_map.mp ix.members.distinct
      refine (List.pairwise_iff_forall_sublist.mpr fun {a b} hab => ?_)
      have hne : a.1 ≠ b.1 := List.pairwise_iff_forall_sublist.mp hdistinct hab
      have ha : a ∈ ix.members.entries := hab.subset (by simp)
      have hb : b ∈ ix.members.entries := hab.subset (by simp)
      intro id hida hidb
      rw [hlist a ha, h.mem_iff_homeOf] at hida
      rw [hlist b hb, h.mem_iff_homeOf, hida] at hidb
      exact hne (Option.some.inj hidb)
  · rw [List.mem_flatMap]
    refine Iff.trans ⟨?_, ?_⟩ Table.mem_keys_iff.symm
    · rintro ⟨e, he, hid⟩
      rw [hlist e he] at hid
      obtain ⟨p, hp, -⟩ := h.mem_driversIn.mp hid
      exact ⟨p, hp⟩
    · rintro ⟨p, hp⟩
      have hid : id ∈ ix.driversIn p.cell := h.mem_driversIn.mpr ⟨p, hp, rfl⟩
      obtain ⟨ids, hids⟩ := Table.mem_keys_iff.mp
        (h.mem_keys_members.mpr ⟨id, h.mem_iff_homeOf.mp hid⟩)
      refine ⟨(p.cell, ids), Table.mem_entries_iff.mpr hids, ?_⟩
      rw [driversIn, hids] at hid
      exact hid

end Consequences

/-- **The tables of an index agree after every history.**  A driver is listed once, by the cell of
its last position; whoever is listed is a driver; no list is empty; so there are as many lists as
cells with drivers in them, and their lengths add up to the number of drivers.  No search ever
meets a driver that is listed in the wrong cell. -/
theorem tables_agree (config : IndexConfig) (history : List Operation) :
    let ix := (new config).after history
    (∀ id placement, ix.drivers.get? id = some placement → ∀ cell,
      (ix.driversIn cell).count id =
        if cell = ix.cellOf placement.position.latitude placement.position.longitude then 1
        else 0) ∧
    (∀ cell id, id ∈ ix.driversIn cell → (ix.lookup id).isSome) ∧
    (∀ cell ids, ix.members.get? cell = some ids → ids ≠ []) ∧
    ix.stats.cells = ((ix.drivers.entries.map fun e =>
      ix.cellOf e.2.position.latitude e.2.position.longitude).dedup).length ∧
    (ix.members.entries.map fun e => e.2.length).sum = ix.stats.drivers ∧
    ∀ latitude longitude limit fault,
      ix.nearest latitude longitude limit ≠ .error (.internal fault) := by
  intro ix
  have h : ix.Consistent := consistent_after config history
  refine ⟨fun id p hp cell => h.count_driversIn hp cell, ?_, h.occupied, h.size_members, ?_, ?_⟩
  · intro cell id hid
    obtain ⟨p, hp, -⟩ := h.mem_driversIn.mp hid
    rw [lookup, hp]
    rfl
  · have hlength := h.perm_lists.length_eq
    rw [List.length_flatMap] at hlength
    exact hlength.trans (List.length_map ..)
  · intro latitude longitude limit fault
    rw [h.nearest_eq]
    split
    · intro he
      cases he
    · intro he
      cases he

end Index
end Fleet
