import Mathlib.Data.List.Dedup
import Mathlib.Data.List.Sort
import Fleet.Proofs.Index.Nearest
import Fleet.Proofs.Index.Refinement
import Fleet.Proofs.Number.Comparison

/-!
# Drivers are independent

What a driver is answered and where it ends up depends on its own writes alone: in a run of writes
of many drivers, the part of one driver is its own run (`Coincide.run`).  So the order between
writes of different drivers does not matter but for the order within the cell lists.  Two consistent
indexes that keep the same drivers differ in nothing else, and a search sorts just this difference
away, up to drivers at one distance (`Congruent.nearest`).
-/

namespace Fleet
namespace Index

/-! ## Writes -/

/-- What is written about one driver. -/
inductive Write where
  | update (latitude longitude : Float) (observedAt : Timestamp)
  | remove
deriving DecidableEq

/-- The operation that writes it about a given driver. -/
def Write.operation (driverId : String) : Write → Operation
  | .update latitude longitude observedAt => .update driverId latitude longitude observedAt
  | .remove => .remove driverId

/-- A driver and what is written about it. -/
abbrev Entry := String × Write

/-- The index after a run of writes. -/
def written (ix : Index) (run : List Entry) : Index :=
  ix.after (run.map fun e => e.2.operation e.1)

/-- The writes of a run, each with its answer. -/
def transcript (ix : Index) : List Entry → List (Entry × Answer)
  | [] => []
  | e :: run =>
    (e, (ix.run (e.2.operation e.1)).1) :: (ix.run (e.2.operation e.1)).2.transcript run

/-- The part of a run that is about one driver. -/
def part (run : List Entry) (driverId : String) : List Entry :=
  run.filter fun e => e.1 = driverId

/-! ## One driver -/

/-- **Two indexes that coincide at one driver.** -/
structure Coincide (driverId : String) (ix ix' : Index) : Prop where
  config_eq : ix'.config = ix.config
  trigonometry_eq : ix'.trigonometry = ix.trigonometry
  placement_eq : ix'.drivers.get? driverId = ix.drivers.get? driverId

namespace Coincide

variable {driverId : String} {ix ix' : Index}

theorem refl (driverId : String) (ix : Index) : Coincide driverId ix ix :=
  ⟨rfl, rfl, rfl⟩

theorem place (h : Coincide driverId ix ix') (position : Position) :
    Coincide driverId (ix.place driverId position) (ix'.place driverId position) where
  config_eq := h.config_eq
  trigonometry_eq := h.trigonometry_eq
  placement_eq := by
    show (Table.insert ..).get? driverId = (Table.insert ..).get? driverId
    rw [Table.get?_insert, Table.get?_insert, if_pos rfl, if_pos rfl, cellOf, h.config_eq]
    rfl

/-- **A write is answered by what the index keeps of its driver,** and so is what it leaves. -/
theorem write (h : Coincide driverId ix ix') (w : Write) :
    (ix'.run (w.operation driverId)).1 = (ix.run (w.operation driverId)).1 ∧
      Coincide driverId (ix.run (w.operation driverId)).2 (ix'.run (w.operation driverId)).2 := by
  cases w with
  | update latitude longitude observedAt =>
    simp only [Write.operation, run_update]
    split
    · exact ⟨rfl, h⟩
    · split
      · exact ⟨rfl, h.place _⟩
      · exact ⟨rfl, h⟩
  | remove =>
    refine ⟨congrArg (Answer.removed ∘ Option.isSome) h.placement_eq, ⟨?_, ?_, ?_⟩⟩
    · exact (config_remove driverId).trans (h.config_eq.trans (config_remove driverId).symm)
    · exact (trigonometry_remove driverId).trans
        (h.trigonometry_eq.trans (trigonometry_remove driverId).symm)
    · exact (drivers_remove driverId driverId).trans
        ((if_pos rfl).trans ((drivers_remove driverId driverId).trans (if_pos rfl)).symm)

/-- A write about another driver does not show. -/
theorem write_other (h : Coincide driverId ix ix') {other : String} (hother : other ≠ driverId)
    (w : Write) : Coincide driverId (ix.run (w.operation other)).2 ix' := by
  cases w with
  | update latitude longitude observedAt =>
    simp only [Write.operation, run_update]
    split
    · exact h
    · split
      · refine ⟨h.config_eq, h.trigonometry_eq, h.placement_eq.trans (Eq.symm ?_)⟩
        exact (Table.get?_insert ..).trans (if_neg hother)
      · exact h
  | remove =>
    refine ⟨h.config_eq.trans (config_remove other).symm,
      h.trigonometry_eq.trans (trigonometry_remove other).symm,
      h.placement_eq.trans (Eq.symm ?_)⟩
    exact (drivers_remove other driverId).trans (if_neg hother)

/-- **In a run of many drivers the part of one is its own run.** -/
theorem run (h : Coincide driverId ix ix') (entries : List Entry) :
    (ix.transcript entries).filter (fun e => e.1.1 = driverId) =
        ix'.transcript (part entries driverId) ∧
      Coincide driverId (ix.written entries) (ix'.written (part entries driverId)) := by
  induction entries generalizing ix ix' with
  | nil => exact ⟨rfl, h⟩
  | cons e entries ih =>
    obtain ⟨d, w⟩ := e
    by_cases hd : d = driverId
    · subst hd
      obtain ⟨hanswer, hafter⟩ := h.write w
      obtain ⟨htranscript, hwritten⟩ := ih hafter
      have hpart : part ((d, w) :: entries) d = (d, w) :: part entries d :=
        List.filter_cons_of_pos (decide_eq_true rfl)
      rw [hpart]
      refine ⟨?_, hwritten⟩
      rw [transcript, transcript, List.filter_cons_of_pos (by simp)]
      exact congrArg₂ List.cons (congrArg (Prod.mk _) hanswer.symm) htranscript
    · obtain ⟨htranscript, hwritten⟩ := ih (h.write_other hd w)
      have hpart : part ((d, w) :: entries) driverId = part entries driverId :=
        List.filter_cons_of_neg (by simpa using hd)
      rw [hpart]
      refine ⟨?_, hwritten⟩
      rw [transcript, List.filter_cons_of_neg (by simpa using hd)]
      exact htranscript

end Coincide

/-! ## Sorted by distance -/

/-- The drivers that a search scans, sorted by distance. -/
def sorted (ix : Index) (latitude longitude : Float) : List String :=
  (ix.scanned latitude longitude).mergeSort (ix.noFarther latitude longitude)

theorem pairwise_sorted (ix : Index) (latitude longitude : Float) :
    (ix.sorted latitude longitude).Pairwise fun a b => ix.noFarther latitude longitude a b :=
  List.pairwise_mergeSort (ix.noFarther_trans latitude longitude)
    (ix.noFarther_total latitude longitude) _

theorem Consistent.nearest_sorted {ix : Index} (h : ix.Consistent) {latitude longitude : Float}
    (hvalid : Geo.isValid latitude longitude) (limit : Nat) :
    ix.nearest latitude longitude limit = .ok ((ix.sorted latitude longitude).take limit) := by
  rw [h.nearest_eq, if_pos hvalid, h.ranked_candidates]
  rfl

/-- A limit that all drivers are within leaves nobody out. -/
theorem Consistent.nearest_all {ix : Index} (h : ix.Consistent) {latitude longitude : Float}
    (hvalid : Geo.isValid latitude longitude) {limit : Nat} (hlimit : ix.size ≤ limit) :
    ix.nearest latitude longitude limit = .ok (ix.sorted latitude longitude) := by
  have hlength : (ix.sorted latitude longitude).length ≤ ix.size := by
    rw [sorted, List.length_mergeSort, h.length_scanned]
    exact List.length_filter_le _ _
  rw [h.nearest_sorted hvalid, List.take_of_length_le (hlength.trans hlimit)]

/-! ## All drivers -/

/-- **Two indexes that keep the same drivers,** each at the same position. -/
structure Congruent (ix ix' : Index) : Prop where
  config_eq : ix'.config = ix.config
  trigonometry_eq : ix'.trigonometry = ix.trigonometry
  placement_eq : ∀ driverId, ix'.drivers.get? driverId = ix.drivers.get? driverId

namespace Congruent

variable {ix ix' : Index} (hs : ix.Congruent ix')
include hs

theorem lookup_eq (driverId : String) : ix'.lookup driverId = ix.lookup driverId :=
  congrArg (Option.map Placement.position) (hs.placement_eq driverId)

/-- The entries are the same, in some order. -/
theorem perm_entries : ix'.drivers.entries.Perm ix.drivers.entries := by
  refine (List.perm_ext_iff_of_nodup (.of_map _ ix'.drivers.distinct)
    (.of_map _ ix.drivers.distinct)).mpr fun ⟨d, p⟩ => ?_
  rw [Table.mem_entries_iff, Table.mem_entries_iff, hs.placement_eq]

theorem size_eq : ix'.size = ix.size := hs.perm_entries.length_eq

theorem perm_records (now : Timestamp) : (ix'.records now).Perm (ix.records now) := by
  unfold records statusAt
  rw [hs.config_eq]
  exact hs.perm_entries.map _

section Searches

variable (latitude longitude : Float)

theorem distanceTo_eq : ix'.distanceTo latitude longitude = ix.distanceTo latitude longitude := by
  funext d
  rw [distanceTo, distanceTo, hs.lookup_eq, hs.trigonometry_eq]

theorem noFarther_eq : ix'.noFarther latitude longitude = ix.noFarther latitude longitude := by
  unfold noFarther distanceRank
  rw [hs.distanceTo_eq]

end Searches

variable (h : ix.Consistent) (h' : ix'.Consistent)
include h h'

/-- There are as many cells, for these are the cells of the drivers. -/
theorem stats_eq : ix'.stats = ix.stats := by
  have hcells : ix'.members.size = ix.members.size := by
    rw [h'.size_members, h.size_members]
    unfold cellOf
    rw [hs.config_eq]
    exact ((hs.perm_entries.map _).dedup).length_eq
  have hdrivers : ix'.drivers.size = ix.drivers.size := hs.size_eq
  unfold stats
  rw [hcells, hdrivers, hs.config_eq]

variable (latitude longitude : Float)

/-- A search scans the same drivers, in some order. -/
theorem perm_scanned : (ix'.scanned latitude longitude).Perm (ix.scanned latitude longitude) := by
  refine (List.perm_ext_iff_of_nodup (h'.nodup_scanned latitude longitude)
    (h.nodup_scanned latitude longitude)).mpr fun d => ?_
  rw [h'.mem_scanned, h.mem_scanned]
  unfold inReach scannedCells cellOf
  rw [hs.placement_eq, hs.config_eq]

theorem perm_sorted : (ix'.sorted latitude longitude).Perm (ix.sorted latitude longitude) :=
  (List.mergeSort_perm _ _).trans
    ((hs.perm_scanned h h' latitude longitude).trans (List.mergeSort_perm _ _).symm)

omit h h' in
theorem pairwise_sorted :
    (ix'.sorted latitude longitude).Pairwise fun a b => ix.noFarther latitude longitude a b :=
  hs.noFarther_eq latitude longitude ▸ ix'.pairwise_sorted latitude longitude

/-- **The distances come out in the same order,** whoever is at them. -/
theorem map_distanceTo_sorted :
    (ix'.sorted latitude longitude).map (ix.distanceTo latitude longitude) =
      (ix.sorted latitude longitude).map (ix.distanceTo latitude longitude) := by
  have hrank {ids : List String}
      (hids : ids.Pairwise fun a b => ix.noFarther latitude longitude a b) :
      (ids.map (ix.distanceTo latitude longitude)).Pairwise fun x y =>
        Binary64.rank x ≤ Binary64.rank y :=
    List.pairwise_map.mpr (hids.imp of_decide_eq_true)
  refine List.Perm.eq_of_pairwise ?_ (hrank (hs.pairwise_sorted latitude longitude))
    (hrank (ix.pairwise_sorted latitude longitude))
    ((hs.perm_sorted h h' latitude longitude).map _)
  exact fun x y _ _ hxy hyx => Binary64.rank_inj.mp (Int.le_antisymm hxy hyx)

/-- **Without equal distances the drivers come out in the same order.** -/
theorem sorted_eq (hdistinct : (ix.scanned latitude longitude).Pairwise fun a b =>
      ix.distanceTo latitude longitude a ≠ ix.distanceTo latitude longitude b) :
    ix'.sorted latitude longitude = ix.sorted latitude longitude := by
  have hnodup : ((ix.scanned latitude longitude).map (ix.distanceTo latitude longitude)).Nodup :=
    List.pairwise_map.mpr hdistinct
  have hinj := List.inj_on_of_nodup_map hnodup
  have hscanned := hs.perm_scanned h h' latitude longitude
  refine List.Perm.eq_of_pairwise ?_ (hs.pairwise_sorted latitude longitude)
    (ix.pairwise_sorted latitude longitude) (hs.perm_sorted h h' latitude longitude)
  intro a b ha hb hab hba
  rw [sorted, List.mem_mergeSort] at ha hb
  refine hinj (hscanned.mem_iff.mp ha) hb (Binary64.rank_inj.mp ?_)
  exact Int.le_antisymm (of_decide_eq_true hab) (of_decide_eq_true hba)

/-- **Searches agree on the distances,** and on the drivers if no two distances are equal. -/
theorem nearest (hvalid : Geo.isValid latitude longitude) (limit : Nat) :
    ∃ ids ids', ix.nearest latitude longitude limit = .ok ids ∧
      ix'.nearest latitude longitude limit = .ok ids' ∧
      ids'.map (ix'.distanceTo latitude longitude) = ids.map (ix.distanceTo latitude longitude) ∧
      ((ix.scanned latitude longitude).Pairwise (fun a b =>
        ix.distanceTo latitude longitude a ≠ ix.distanceTo latitude longitude b) → ids' = ids) := by
  refine ⟨_, _, h.nearest_sorted hvalid limit, h'.nearest_sorted hvalid limit, ?_,
    fun hdistinct => ?_⟩
  · rw [hs.distanceTo_eq, List.map_take, List.map_take, hs.map_distanceTo_sorted h h']
  · rw [hs.sorted_eq h h' latitude longitude hdistinct]

end Congruent

/-! ## Interleavings -/

variable {run run' : List Entry}

/-- The part of a driver, run from the same index. -/
theorem own_run (ix : Index) (run : List Entry) (driverId : String) :
    (ix.transcript run).filter (fun e => e.1.1 = driverId) =
        ix.transcript (part run driverId) ∧
      Coincide driverId (ix.written run) (ix.written (part run driverId)) :=
  (Coincide.refl driverId ix).run run

/-- **Runs with the same parts give the same answers.** -/
theorem transcript_of_parts (ix : Index) {driverId : String}
    (hpart : part run driverId = part run' driverId) :
    (ix.transcript run).filter (fun e => e.1.1 = driverId) =
      (ix.transcript run').filter (fun e => e.1.1 = driverId) := by
  rw [(ix.own_run run driverId).1, (ix.own_run run' driverId).1, hpart]

/-- **Runs with the same parts leave the same drivers.** -/
theorem congruent_written (ix : Index)
    (hparts : ∀ driverId, part run driverId = part run' driverId) :
    (ix.written run).Congruent (ix.written run') := by
  have hown (driverId : String) :
      Coincide driverId (ix.written run) (ix.written (part run driverId)) ∧
        Coincide driverId (ix.written run') (ix.written (part run driverId)) :=
    ⟨(ix.own_run run driverId).2, hparts driverId ▸ (ix.own_run run' driverId).2⟩
  -- the settings are the same seen from any driver
  exact
    { config_eq := (hown "").2.config_eq.symm.trans (hown "").1.config_eq
      trigonometry_eq := (hown "").2.trigonometry_eq.symm.trans (hown "").1.trigonometry_eq
      placement_eq := fun d => (hown d).2.placement_eq.symm.trans (hown d).1.placement_eq }

/-- **Drivers are independent.**  Take two runs of updates and removals that have the same writes of
each driver in the same order, and start them from one index that some history has led to.  Every
write is answered alike in both, and afterwards look-ups, the count, the records and the statistics
agree.  So do the distances of the drivers that a search finds, whatever the query, the limit and
the mode of search, and if no two of the scanned drivers are equally far, the drivers themselves. -/
theorem interleavings_agree (config : IndexConfig) (history : List Operation)
    (run run' : List Entry) (hparts : ∀ driverId, part run driverId = part run' driverId) :
    let start := (new config).after history
    let ix := start.written run
    let ix' := start.written run'
    (∀ driverId, (start.transcript run).filter (fun e => e.1.1 = driverId) =
      (start.transcript run').filter (fun e => e.1.1 = driverId)) ∧
    (∀ driverId, ix'.lookup driverId = ix.lookup driverId) ∧
    ix'.size = ix.size ∧
    (∀ now, (ix'.records now).Perm (ix.records now)) ∧
    ix'.stats = ix.stats ∧
    ∀ latitude longitude limit, Geo.isValid latitude longitude →
      ∃ ids ids', ix.nearest latitude longitude limit = .ok ids ∧
        ix'.nearest latitude longitude limit = .ok ids' ∧
        ids'.map (ix'.distanceTo latitude longitude) =
          ids.map (ix.distanceTo latitude longitude) ∧
        ((ix.scanned latitude longitude).Pairwise (fun a b =>
          ix.distanceTo latitude longitude a ≠ ix.distanceTo latitude longitude b) →
            ids' = ids) := by
  intro start ix ix'
  have hs : ix.Congruent ix' := start.congruent_written hparts
  have hstart : start.Consistent := consistent_after config history
  have h : ix.Consistent := hstart.after _
  have h' : ix'.Consistent := hstart.after _
  exact ⟨fun d => start.transcript_of_parts (hparts d), hs.lookup_eq, hs.size_eq, hs.perm_records,
    hs.stats_eq h h', fun latitude longitude limit hvalid =>
      hs.nearest h h' latitude longitude hvalid limit⟩

/-- Two drivers enter one cell, in either order, and a third enters another cell twice. -/
theorem interleavings_agree_three_drivers :
    let run : List Entry := [("a", .update 0 0 0), ("b", .update 0 0.001 0), ("c", .update 10 10 0),
      ("c", .remove), ("c", .update 10 10 1)]
    let run' : List Entry := [("c", .update 10 10 0), ("b", .update 0 0.001 0), ("c", .remove),
      ("a", .update 0 0 0), ("c", .update 10 10 1)]
    let ix := ((new {}).after []).written run
    let ix' := ((new {}).after []).written run'
    ix'.stats = ix.stats ∧
      (∃ ids ids', ix.nearest 0 0 2 = .ok ids ∧ ix'.nearest 0 0 2 = .ok ids' ∧
        ids'.map (ix'.distanceTo 0 0) = ids.map (ix.distanceTo 0 0)) ∧
      ∃ ids, ix.nearest 10 10 2 = .ok ids ∧ ix'.nearest 10 10 2 = .ok ids := by
  intro run run' ix ix'
  have hparts : ∀ driverId, part run driverId = part run' driverId := by
    intro driverId
    by_cases ha : "a" = driverId
    · subst ha
      rfl
    · by_cases hb : "b" = driverId
      · subst hb
        rfl
      · simp [part, run, run', List.filter_cons, ha, hb]
  have hscanned : ix.scanned 10 10 = ["c"] := by decide +kernel
  obtain ⟨-, -, -, -, hstats, hnearest⟩ := interleavings_agree {} [] run run' hparts
  obtain ⟨ids, ids', hids, hids', hdistances, -⟩ := hnearest 0 0 2 (by decide)
  obtain ⟨far, far', hfar, hfar', -, hsame⟩ := hnearest 10 10 2 (by decide)
  have hfar_eq : far' = far := hsame (by rw [hscanned]; exact List.pairwise_singleton _ _)
  exact ⟨hstats, ⟨ids, ids', hids, hids', hdistances⟩, far, hfar, hfar_eq ▸ hfar'⟩

end Index
end Fleet
