import Fleet.Proofs.Index.Consistency

/-!
# Searches find the nearest drivers

A search of a consistent index sorts the drivers that it scans by distance and takes the first
ones (`Consistent.ranked_candidates`).  That the sort is stable and its input without repetitions is
all there is to the answer: `IsNearest` states what callers can rely on, and `nearest_exact` that
every search of every reachable index meets it.
-/

namespace Fleet
namespace Index

variable (ix : Index) (latitude longitude : Float)

/-- The drivers that a search looks at, cell by cell and within a cell in the order in which they
entered it. -/
def scanned : List String := (ix.scannedCells latitude longitude).flatMap ix.driversIn

/-- Whether a position lies in a cell that a search looks into. -/
def inReach (position : Position) : Bool :=
  ix.cellOf position.latitude position.longitude ∈ ix.scannedCells latitude longitude

/-- Distance of a driver from a coordinate in kilometres; zero for an unknown driver. -/
def distanceTo (driverId : String) : Float :=
  ((ix.lookup driverId).map fun p =>
    ix.trigonometry.haversineKm latitude longitude p.latitude p.longitude).getD 0

/-- Place of a driver's distance in the total order of floats. -/
def distanceRank (driverId : String) : Int :=
  Binary64.rank (ix.distanceTo latitude longitude driverId)

/-- Whether a driver is no farther than another. -/
def noFarther (a b : String) : Bool :=
  ix.distanceRank latitude longitude a ≤ ix.distanceRank latitude longitude b

/-- **What the answer to a search is to be:** the `limit` nearest of the drivers in reach. -/
structure IsNearest (limit : Nat) (ids : List String) : Prop where
  nodup : ids.Nodup
  /-- There are as many as asked for, or as are in reach. -/
  length_eq : ids.length =
    min limit (ix.drivers.entries.filter fun e =>
      ix.inReach latitude longitude e.2.position).length
  inReach : ∀ id ∈ ids, ∃ position,
    ix.lookup id = some position ∧ ix.inReach latitude longitude position
  sorted : ids.Pairwise fun a b =>
    ix.distanceRank latitude longitude a ≤ ix.distanceRank latitude longitude b
  /-- Whoever is left out is at least as far as everyone who is not. -/
  complete : ∀ id position, ix.lookup id = some position →
    ix.inReach latitude longitude position → id ∉ ids → ∀ last ∈ ids,
      ix.distanceRank latitude longitude last ≤ ix.distanceRank latitude longitude id
  /-- Of two equally distant drivers the one scanned first comes first, and it is not left out
  before the other. -/
  ties : ∀ a b, [a, b].Sublist (ix.scanned latitude longitude) →
    ix.distanceRank latitude longitude a = ix.distanceRank latitude longitude b →
    b ∈ ids → [a, b].Sublist ids

/-! ## The order by distance -/

theorem noFarther_trans (a b c : String) (hab : ix.noFarther latitude longitude a b)
    (hbc : ix.noFarther latitude longitude b c) : ix.noFarther latitude longitude a c :=
  decide_eq_true (Int.le_trans (of_decide_eq_true hab) (of_decide_eq_true hbc))

theorem noFarther_total (a b : String) :
    ix.noFarther latitude longitude a b || ix.noFarther latitude longitude b a := by
  simpa [noFarther] using Int.le_total _ _

/-! ## What a search scans -/

theorem nodup_scannedCells : (ix.scannedCells latitude longitude).Nodup := by
  unfold scannedCells
  split
  · exact Cell.nodup_neighborhood _
  · exact List.nodup_singleton _

section Scanned

variable {ix} (h : ix.Consistent)
include h

theorem Consistent.mem_scanned {id : String} :
    id ∈ ix.scanned latitude longitude ↔
      ∃ p, ix.drivers.get? id = some p ∧ ix.inReach latitude longitude p.position := by
  rw [scanned, List.mem_flatMap]
  constructor
  · rintro ⟨cell, hcell, hid⟩
    obtain ⟨p, hp, rfl⟩ := h.mem_driversIn.mp hid
    rw [h.cell_eq hp] at hcell
    exact ⟨p, hp, decide_eq_true hcell⟩
  · rintro ⟨p, hp, hreach⟩
    have hcell := of_decide_eq_true hreach
    rw [← h.cell_eq hp] at hcell
    exact ⟨p.cell, hcell, h.mem_driversIn.mpr ⟨p, hp, rfl⟩⟩

/-- No driver is scanned twice: the cells are different, and no driver is on two lists. -/
theorem Consistent.nodup_scanned : (ix.scanned latitude longitude).Nodup := by
  refine List.nodup_flatMap.mpr ⟨fun cell _ => h.nodup_driversIn cell, ?_⟩
  refine (ix.nodup_scannedCells latitude longitude).imp fun {a b} hne id ha hb => hne ?_
  rw [h.mem_iff_homeOf] at ha hb
  exact Option.some.inj (ha.symm.trans hb)

/-- As many drivers are scanned as are in reach. -/
theorem Consistent.length_scanned :
    (ix.scanned latitude longitude).length =
      (ix.drivers.entries.filter fun e => ix.inReach latitude longitude e.2.position).length := by
  have hkeys : ((ix.drivers.entries.filter fun e =>
      ix.inReach latitude longitude e.2.position).map Prod.fst).Nodup :=
    (List.filter_sublist.map Prod.fst).nodup ix.drivers.distinct
  rw [← List.length_map (f := Prod.fst)]
  refine List.Perm.length_eq ((List.perm_ext_iff_of_nodup
    (h.nodup_scanned latitude longitude) hkeys).mpr fun id => ?_)
  rw [h.mem_scanned, List.mem_map]
  constructor
  · rintro ⟨p, hp, hreach⟩
    exact ⟨(id, p), List.mem_filter.mpr ⟨Table.mem_entries_iff.mpr hp, hreach⟩, rfl⟩
  · rintro ⟨⟨j, p⟩, he, rfl⟩
    obtain ⟨hp, hreach⟩ := List.mem_filter.mp he
    exact ⟨p, Table.mem_entries_iff.mp hp, hreach⟩

/-- The candidates of a search are the scanned drivers with their distances. -/
theorem Consistent.candidates_eq :
    candidates ix.trigonometry latitude longitude (ix.listed (ix.scannedCells latitude longitude)) =
      (ix.scanned latitude longitude).map fun id =>
        ⟨id, ix.distanceTo latitude longitude id⟩ := by
  unfold candidates listed scanned
  rw [List.filterMap_flatMap, List.map_flatMap]
  congr 1
  funext cell
  rw [List.filterMap_map, ← List.filterMap_eq_map]
  apply List.filterMap_congr
  intro id hid
  obtain ⟨p, hp, -⟩ := h.mem_driversIn.mp hid
  simp [h.placement?_eq hid, hp, distanceTo, lookup]

/-- **A search takes the first of the scanned drivers, sorted by distance.** -/
theorem Consistent.ranked_candidates (limit : Nat) :
    ranked (candidates ix.trigonometry latitude longitude
        (ix.listed (ix.scannedCells latitude longitude))) limit =
      ((ix.scanned latitude longitude).mergeSort
        (ix.noFarther latitude longitude)).take limit := by
  have hsort : ((candidates ix.trigonometry latitude longitude
        (ix.listed (ix.scannedCells latitude longitude))).mergeSort Candidate.noFarther).map
          Candidate.driverId =
      ((candidates ix.trigonometry latitude longitude
        (ix.listed (ix.scannedCells latitude longitude))).map
        Candidate.driverId).mergeSort (ix.noFarther latitude longitude) := by
    apply List.map_mergeSort
    intro a ha b hb
    rw [h.candidates_eq] at ha hb
    obtain ⟨a, -, rfl⟩ := List.mem_map.mp ha
    obtain ⟨b, -, rfl⟩ := List.mem_map.mp hb
    rfl
  rw [ranked, List.map_take, hsort, h.candidates_eq, List.map_map]
  exact congrArg (fun ids => (ids.mergeSort (ix.noFarther latitude longitude)).take limit)
    (List.map_id _)

end Scanned

/-! ## The answer -/

section Answer

variable {ix}

/-- **The first of the sorted drivers are the nearest.**  All of the answer is at most as far as
what the cut leaves, and the sort keeps equally distant drivers in scan order. -/
theorem Consistent.isNearest_take (h : ix.Consistent) (limit : Nat) :
    ix.IsNearest latitude longitude limit
      (((ix.scanned latitude longitude).mergeSort
        (ix.noFarther latitude longitude)).take limit) := by
  generalize hsorted : (ix.scanned latitude longitude).mergeSort
    (ix.noFarther latitude longitude) = sorted
  have hperm : sorted.Perm (ix.scanned latitude longitude) := hsorted ▸ List.mergeSort_perm _ _
  have hnodup : sorted.Nodup := hperm.nodup_iff.mpr (h.nodup_scanned latitude longitude)
  have hpairwise : sorted.Pairwise fun a b =>
      ix.distanceRank latitude longitude a ≤ ix.distanceRank latitude longitude b := by
    rw [← hsorted]
    exact (List.pairwise_mergeSort (ix.noFarther_trans latitude longitude)
      (ix.noFarther_total latitude longitude) _).imp fun h => of_decide_eq_true h
  -- the cut: what is taken, and what is left
  have hcut : (sorted.take limit ++ sorted.drop limit) = sorted := List.take_append_drop ..
  have hdisjoint : ∀ id ∈ sorted.take limit, id ∉ sorted.drop limit := by
    rw [← hcut] at hnodup
    exact fun id htake hdrop => (List.nodup_append.mp hnodup).2.2 id htake id hdrop rfl
  refine ⟨(List.take_sublist ..).nodup hnodup, ?_, ?_, hpairwise.sublist (List.take_sublist ..),
    ?_, ?_⟩
  · rw [List.length_take, hperm.length_eq, h.length_scanned]
  · intro id hid
    obtain ⟨p, hp, hreach⟩ := (h.mem_scanned latitude longitude).mp
      (hperm.mem_iff.mp (List.mem_of_mem_take hid))
    exact ⟨p.position, by rw [lookup, hp]; rfl, hreach⟩
  · intro id position hlookup hreach hleft last hlast
    obtain ⟨p, hp, rfl⟩ := Option.map_eq_some_iff.mp hlookup
    have hmem : id ∈ sorted.take limit ++ sorted.drop limit := by
      rw [hcut]
      exact hperm.mem_iff.mpr ((h.mem_scanned latitude longitude).mpr ⟨p, hp, hreach⟩)
    rw [← hcut] at hpairwise
    exact (List.pairwise_append.mp hpairwise).2.2 last hlast id
      ((List.mem_append.mp hmem).resolve_left hleft)
  · intro a b hscan heq hb
    have hstable : [a, b].Sublist sorted := by
      rw [← hsorted]
      exact List.pair_sublist_mergeSort (ix.noFarther_trans latitude longitude)
        (ix.noFarther_total latitude longitude) (decide_eq_true (Int.le_of_eq heq)) hscan
    rw [← hcut] at hstable
    obtain ⟨front, back, hsplit, hfront, hback⟩ := List.sublist_append_iff.mp hstable
    -- nothing of the pair is beyond the cut, for its second driver is not
    rcases List.eq_nil_or_concat back with rfl | ⟨init, last, rfl⟩
    · rw [List.append_nil] at hsplit
      exact hsplit ▸ hfront
    · have hlast : last = b := by
        have hend := congrArg List.getLast? hsplit
        simpa [eq_comm] using hend
      have hdrop : b ∈ sorted.drop limit := hback.subset (by simp [hlast])
      exact absurd hdrop (hdisjoint b hb)

end Answer

/-- **Searches are exact.**  In every state that an index can reach, with either mode of search, a
search at a coordinate answers with the nearest drivers among those whose last position lies in a
scanned cell, whatever the limit; a pair of numbers that is no coordinate is refused. -/
theorem nearest_exact (config : IndexConfig) (history : List Operation)
    (latitude longitude : Float) (limit : Nat) :
    let ix := (new config).after history
    if Geo.isValid latitude longitude then
      ∃ ids, ix.nearest latitude longitude limit = .ok ids ∧
        ix.IsNearest latitude longitude limit ids
    else ix.nearest latitude longitude limit = .error (.invalidCoordinate latitude longitude) := by
  intro ix
  have h : ix.Consistent := consistent_after config history
  rw [h.nearest_eq]
  split
  · rw [h.ranked_candidates]
    exact ⟨_, rfl, h.isNearest_take latitude longitude limit⟩
  · rfl

end Index
end Fleet
