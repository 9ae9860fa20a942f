import Mathlib.Data.List.NodupEquivFin
import Mathlib.Order.WellFounded
import Fleet.Proofs.Index.Commutation

/-!
# The two modes of search

Whether searches look into neighbouring cells does not matter to what an index keeps
(`after_searching`), and a search of one cell is a search of its neighbourhood restricted to it:
sorting is stable, so it does not matter whether the drivers of other cells are left out before it
or after it (`filter_mergeSort`).  A list that is a part of another sorted one is not ahead of it at
any place (`rel_of_sublist`), so the wider search is nowhere farther.
-/

namespace Fleet

/-! ## Sorting a part of a list -/

section Sorting

variable {α : Type} {le : α → α → Bool} (htrans : ∀ a b c, le a b → le b c → le a c)
  (htotal : ∀ a b, le a b || le b a)
include htrans htotal

/-- **A stable sort inserts the first element** before all that it is not above. -/
theorem mergeSort_cons_eq (a : α) (l : List α) : (a :: l).mergeSort le =
    ((l.mergeSort le).filter fun b => !le a b) ++ a :: (l.mergeSort le).filter (le a) := by
  obtain ⟨front, back, hsort, hrest, hfront⟩ := List.mergeSort_cons htrans htotal a l
  have hsorted : (front ++ a :: back).Pairwise fun b c => le b c :=
    hsort ▸ List.pairwise_mergeSort htrans htotal _
  have hback : ∀ b ∈ back, le a b := (List.pairwise_cons.mp (List.pairwise_append.mp hsorted).2.1).1
  have hnone : (back.filter fun b => !le a b) = [] :=
    List.filter_eq_nil_iff.mpr fun b hb => by rw [hback b hb]; decide
  have hnone' : front.filter (le a) = [] :=
    List.filter_eq_nil_iff.mpr fun b hb => by simpa using hfront b hb
  rw [hsort, hrest, List.filter_append, List.filter_append, List.filter_eq_self.mpr hfront,
    List.filter_eq_self.mpr hback, hnone, hnone', List.append_nil, List.nil_append]

/-- **A stable sort and a filter can be exchanged.** -/
theorem filter_mergeSort (p : α → Bool) (l : List α) :
    (l.mergeSort le).filter p = (l.filter p).mergeSort le := by
  induction l with
  | nil => simp
  | cons a l ih =>
    by_cases ha : p a
    · have hswap (q : α → Bool) :
          ((l.mergeSort le).filter q).filter p = ((l.filter p).mergeSort le).filter q := by
        rw [List.filter_filter, ← ih, List.filter_filter]
        simp only [Bool.and_comm]
      rw [List.filter_cons_of_pos ha, mergeSort_cons_eq htrans htotal,
        mergeSort_cons_eq htrans htotal, List.filter_append, List.filter_cons_of_pos ha, hswap,
        hswap]
    · obtain ⟨front, back, hsort, hrest, -⟩ := List.mergeSort_cons htrans htotal a l
      rw [List.filter_cons_of_neg ha, ← ih, hsort, hrest, List.filter_append, List.filter_append,
        List.filter_cons_of_neg ha]

end Sorting

/-- **A sorted list is nowhere behind a part of it.** -/
theorem rel_of_sublist {α : Type} {r : α → α → Prop} (hrefl : ∀ a, r a a) {part whole : List α}
    (hsorted : whole.Pairwise r) (hpart : part.Sublist whole) {i : Nat} {a b : α}
    (ha : part[i]? = some a) (hb : whole[i]? = some b) : r b a := by
  obtain ⟨place, hplace⟩ := List.sublist_iff_exists_orderEmbedding_getElem?_eq.mp hpart
  have hle : i ≤ place i := StrictMono.le_apply place.strictMono
  rw [hplace] at ha
  rcases hle.eq_or_lt with hsame | hlt
  · rw [← hsame, hb] at ha
    exact Option.some.inj ha ▸ hrefl b
  · obtain ⟨hi, rfl⟩ := List.getElem?_eq_some_iff.mp hb
    obtain ⟨hj, rfl⟩ := List.getElem?_eq_some_iff.mp ha
    exact List.pairwise_iff_getElem.mp hsorted i _ hi hj hlt

namespace Index

/-- The index with searches in neighbouring cells switched on or off. -/
def searching (ix : Index) (neighborSearch : Bool) : Index :=
  { ix with config := { ix.config with neighborSearch } }

/-! ## What an index keeps -/

section Kept

variable {ix : Index} (neighborSearch : Bool)

/-- The mode of search does not show in the tables. -/
theorem Consistent.searching (h : ix.Consistent) : (ix.searching neighborSearch).Consistent :=
  ⟨h.cell_eq, h.mem_driversIn, h.nodup_driversIn, h.occupied⟩

theorem remove_searching (driverId : String) : (ix.searching neighborSearch).remove driverId =
    (ix.remove driverId).searching neighborSearch := by
  have hdrivers : (ix.searching neighborSearch).drivers.get? driverId =
      ix.drivers.get? driverId := rfl
  rw [remove, remove, hdrivers]
  cases ix.drivers.get? driverId <;> rfl

theorem foldl_remove_searching (ids : List String) :
    ids.foldl remove (ix.searching neighborSearch) =
      (ids.foldl remove ix).searching neighborSearch := by
  induction ids generalizing ix with
  | nil => rfl
  | cons id ids ih => rw [List.foldl_cons, remove_searching, ih, List.foldl_cons]

/-- **An operation does the same to the tables in both modes.**  A search changes nothing in a
consistent index, wherever it looks. -/
theorem Consistent.run_searching (h : ix.Consistent) (op : Operation) :
    ((ix.searching neighborSearch).run op).2 = (ix.run op).2.searching neighborSearch := by
  cases op with
  | update driverId latitude longitude observedAt =>
    rw [run_update, run_update]
    split
    · rfl
    · split <;> rfl
  | nearest latitude longitude limit =>
    show (ix.searching neighborSearch).afterNearest latitude longitude limit =
      (ix.afterNearest latitude longitude limit).searching neighborSearch
    rw [(h.searching neighborSearch).afterNearest_eq, h.afterNearest_eq]
  | sweep now limit => exact foldl_remove_searching neighborSearch _
  | sweepStale now => exact foldl_remove_searching neighborSearch _
  | remove driverId => exact remove_searching neighborSearch driverId
  | lookup | driversIn | cellOf | records | stats | size => rfl

theorem Consistent.after_searching (h : ix.Consistent) (history : List Operation) :
    (ix.searching neighborSearch).after history =
      (ix.after history).searching neighborSearch := by
  induction history generalizing ix with
  | nil => rfl
  | cons op history ih =>
    show ((ix.searching neighborSearch).run op).2.after history = _
    rw [h.run_searching, ih (h.run op)]
    rfl

end Kept

/-! ## Searches of one cell and of its neighbourhood -/

section Searches

variable (ix : Index) (latitude longitude : Float)

/-- Whether a driver is in the cell of a coordinate. -/
def isHome (driverId : String) : Bool :=
  ix.homeOf driverId = some (ix.cellOf latitude longitude)

variable {ix} (h : ix.Consistent)
include h

/-- Of the drivers on several lists those of one of the cells are its list. -/
theorem Consistent.filter_flatMap_driversIn {cells : List Cell} (hcells : cells.Nodup) {cell : Cell}
    (hcell : cell ∈ cells) :
    (cells.flatMap ix.driversIn).filter (fun d => ix.homeOf d = some cell) =
      ix.driversIn cell := by
  obtain ⟨front, back, rfl⟩ := List.append_of_mem hcell
  have hothers {cells : List Cell} (hout : cell ∉ cells) :
      (cells.flatMap ix.driversIn).filter (fun d => ix.homeOf d = some cell) = [] := by
    rw [List.filter_eq_nil_iff]
    intro d hd hhome
    obtain ⟨other, hother, hd⟩ := List.mem_flatMap.mp hd
    rw [h.mem_iff_homeOf, of_decide_eq_true hhome] at hd
    exact hout (Option.some.inj hd ▸ hother)
  have hall : (ix.driversIn cell).filter (fun d => ix.homeOf d = some cell) = ix.driversIn cell :=
    List.filter_eq_self.mpr fun d hd => decide_eq_true (h.mem_iff_homeOf.mp hd)
  obtain ⟨hfront, hback⟩ : cell ∉ front ∧ cell ∉ back := by
    rw [List.nodup_middle, List.nodup_cons, List.mem_append] at hcells
    exact not_or.mp hcells.1
  rw [List.flatMap_append, List.flatMap_cons, List.filter_append, List.filter_append,
    hothers hfront, hall, hothers hback, List.append_nil, List.nil_append]

/-- **A search of one cell scans what a search of its neighbourhood scans in it,** in the same
order. -/
theorem Consistent.scanned_searching :
    (ix.searching false).scanned latitude longitude =
      ((ix.searching true).scanned latitude longitude).filter (ix.isHome latitude longitude) := by
  have hhome : ix.cellOf latitude longitude ∈ (ix.cellOf latitude longitude).neighborhood := by
    simp [Cell.neighborhood, Cell.offsets, Cell.shift]
  show [ix.cellOf latitude longitude].flatMap ix.driversIn =
    ((ix.cellOf latitude longitude).neighborhood.flatMap ix.driversIn).filter _
  unfold isHome
  rw [h.filter_flatMap_driversIn (Cell.nodup_neighborhood _) hhome, List.flatMap_singleton]

/-- **And so it finds what the other finds in the cell,** in the same order. -/
theorem Consistent.sorted_searching :
    (ix.searching false).sorted latitude longitude =
      ((ix.searching true).sorted latitude longitude).filter (ix.isHome latitude longitude) := by
  rw [sorted, sorted, h.scanned_searching]
  exact (filter_mergeSort (ix.noFarther_trans latitude longitude)
    (ix.noFarther_total latitude longitude) _ _).symm

end Searches

/-- **Searching one cell is searching its neighbourhood, restricted to the cell.**  Two indexes that
differ in their mode of search alone keep the same tables after every history.  Of the whole answer
of the one that looks into neighbouring cells, the drivers in the cell of the query are the whole
answer of the other, in the same order, and the first of them its answer to a limited search.  So no
driver is lost by looking farther, and wherever both have a driver, the farther search has one that
is no farther away.  This holds at the end of the range of cells as anywhere else. -/
theorem search_of_one_cell (config : IndexConfig) (history : List Operation) :
    let exact := (new { config with neighborSearch := false }).after history
    let wide := (new { config with neighborSearch := true }).after history
    wide.drivers = exact.drivers ∧ wide.members = exact.members ∧
    ∀ latitude longitude, Geo.isValid latitude longitude →
      (∀ limit all, wide.size ≤ all → ∃ ids found,
        wide.nearest latitude longitude all = .ok ids ∧
        exact.nearest latitude longitude limit = .ok found ∧
        found = (ids.filter (wide.isHome latitude longitude)).take limit ∧
        ∀ d ∈ found, d ∈ ids) ∧
      ∀ limit limit', ∃ found ids,
        exact.nearest latitude longitude limit = .ok found ∧
        wide.nearest latitude longitude limit' = .ok ids ∧
        ∀ (i : Nat) (d e : String), found[i]? = some d → ids[i]? = some e →
          wide.distanceRank latitude longitude e ≤ exact.distanceRank latitude longitude d := by
  intro exact wide
  let ix := (new config).after history
  have hnew : (new config).Consistent := consistent_new config
  have h : ix.Consistent := hnew.after history
  have hexact : exact = ix.searching false := hnew.after_searching false history
  have hwide : wide = ix.searching true := hnew.after_searching true history
  rw [hexact, hwide]
  refine ⟨rfl, rfl, fun latitude longitude hvalid => ?_⟩
  have hfound := (h.searching false).nearest_sorted hvalid
  have hids := (h.searching true).nearest_sorted hvalid
  have hsorted := h.sorted_searching latitude longitude
  constructor
  · intro limit all hall
    refine ⟨_, _, (h.searching true).nearest_all hvalid hall, hfound limit, ?_, fun d hd => ?_⟩
    · rw [hsorted]
      rfl
    · rw [hsorted] at hd
      exact List.mem_of_mem_filter (List.mem_of_mem_take hd)
  · intro limit limit'
    refine ⟨_, _, hfound limit, hids limit', fun i d e hd he => ?_⟩
    have hpart : ((ix.searching false).sorted latitude longitude).Sublist
        ((ix.searching true).sorted latitude longitude) := by
      rw [hsorted]
      exact List.filter_sublist
    have hnear := (ix.searching true).pairwise_sorted latitude longitude
    have huncut {ids : List String} {n : Nat} {a : String} (ha : (ids.take n)[i]? = some a) :
        ids[i]? = some a := by
      rw [List.getElem?_take] at ha
      exact (Option.ite_none_right_eq_some.mp ha).2
    exact of_decide_eq_true (rel_of_sublist (fun a => decide_eq_true (Int.le_refl _)) hnear hpart
      (huncut hd) (huncut he))

/-- A driver in the cell of the query, and one just across its edge and nearer. -/
theorem search_of_one_cell_at_an_edge :
    let history : List Operation := [.update "home" 0.002 0.002 0, .update "next" 0.009 0.0101 0]
    let exact := (new { neighborSearch := false }).after history
    let wide := (new { neighborSearch := true }).after history
    exact.nearest 0.009 0.009 1 = .ok ["home"] ∧
      ∃ ids, wide.nearest 0.009 0.009 2 = .ok ids ∧ "home" ∈ ids := by
  intro history exact wide
  obtain ⟨-, -, hsearches⟩ := search_of_one_cell {} history
  obtain ⟨hrestricted, -⟩ := hsearches 0.009 0.009 (by decide)
  obtain ⟨ids, found, hids, hfound, -, hmem⟩ := hrestricted 1 2 (by decide)
  have hexact : exact.nearest 0.009 0.009 1 = .ok ["home"] := by
    have hscanned : exact.scanned 0.009 0.009 = ["home"] := by decide +kernel
    rw [(consistent_after _ history).nearest_sorted (by decide), sorted, hscanned,
      List.mergeSort_singleton]
    rfl
  obtain rfl : found = ["home"] := Except.ok.inj (hfound.symm.trans hexact)
  exact ⟨hexact, ids, hids, hmem _ (List.mem_singleton.mpr rfl)⟩

end Index
end Fleet
