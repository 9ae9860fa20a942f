import Fleet.Proofs.Index.Commutation
import Fleet.Proofs.Number.Quotient
import Fleet.Proofs.Track.Finite

/-!
# Searches of a neighbourhood reach across edges

Two coordinates less than half a cell apart, as plain numbers, are in the same cell or in cells that
touch, whatever the size of the cells and however the division is rounded (`Cell.mem_neighborhood`).
So a search that looks into neighbouring cells finds every driver that is that close
(`Index.neighbors_found`).

Cells do not go round the globe.  Where the longitude jumps from one end of its range to the other,
the cells on the two sides are no neighbours, and a driver just across is not found
(`Index.antimeridian_hides_driver`).
-/

namespace Fleet

open Rounding

/-! ## Cells that touch -/

/-- A cell at most one row and one column away is in the neighbourhood. -/
theorem Cell.shift_mem_neighborhood (c : Cell) {dlat dlon : Int64}
    (hlat : dlat ∈ [(-1 : Int64), 0, 1]) (hlon : dlon ∈ [(-1 : Int64), 0, 1]) :
    c.shift dlat dlon ∈ c.neighborhood := by
  refine List.mem_map.mpr ⟨(dlat, dlon), ?_, rfl⟩
  simp only [List.mem_cons, List.not_mem_nil, or_false] at hlat hlon
  rcases hlat with rfl | rfl | rfl <;> rcases hlon with rfl | rfl | rfl <;> simp [offsets]

/-- Whether two coordinates are less than half of `edge` apart in both directions, as plain
numbers. -/
def Geo.IsClose (edge latitude longitude latitude' longitude' : Float) : Prop :=
  |value latitude - value latitude'| < value edge / 2 ∧
    |value longitude - value longitude'| < value edge / 2

/-- Degrees between two longitudes on the shorter way round the globe. -/
def Geo.arc (longitude longitude' : Float) : ℚ :=
  min |value longitude - value longitude'| (360 - |value longitude - value longitude'|)

/-- **The cells of coordinates less than half an edge apart touch,** or are the same. -/
theorem Cell.mem_neighborhood {edge latitude longitude latitude' longitude' : Float}
    (hedge : IsAbove edge) (hvalid : Geo.isValid latitude longitude)
    (hvalid' : Geo.isValid latitude' longitude')
    (hclose : Geo.IsClose edge latitude longitude latitude' longitude') :
    Cell.of latitude' longitude' edge ∈ (Cell.of latitude longitude edge).neighborhood := by
  obtain ⟨hlat, hlon⟩ := Geo.isFinite_of_isValid hvalid
  obtain ⟨hlat', hlon'⟩ := Geo.isFinite_of_isValid hvalid'
  obtain ⟨dlat, hdlat, hrow⟩ := floorInt64_div_of_close hlat hlat' hedge hclose.1
  obtain ⟨dlon, hdlon, hcolumn⟩ := floorInt64_div_of_close hlon hlon' hedge hclose.2
  have hshift : Cell.of latitude' longitude' edge =
      (Cell.of latitude longitude edge).shift dlat dlon :=
    Cell.mk.injEq .. |>.mpr ⟨hrow, hcolumn⟩
  rw [hshift]
  exact Cell.shift_mem_neighborhood _ hdlat hdlon

/-- The cells of a valid configuration have a positive edge. -/
theorem Config.isAbove_cellSize {c : Config} (h : c.fault? = none) :
    IsAbove c.index.cellSize := by
  rw [fault?] at h
  split at h
  · cases h
  · rename_i hsize
    exact isAbove_of_isPositive (by simpa using hsize)

namespace Index

/-! ## What holds of every state -/

/-- **What an index that was made with a configuration keeps:** the configuration, the agreement of
its tables, and that all drivers are at valid coordinates. -/
structure Sound (config : IndexConfig) (ix : Index) : Prop extends Consistent ix where
  config_eq : ix.config = config
  isValid : ∀ d x, ix.lookup d = some x → x.isValid

variable {config : IndexConfig} {ix : Index}

theorem sound_new (config : IndexConfig) : Sound config (new config) where
  toConsistent := consistent_new config
  config_eq := rfl
  isValid := fun d x hx => by cases hx

namespace Sound

variable (h : Sound config ix)
include h

theorem place (driverId : String) {position : Position} (hvalid : position.isValid) :
    Sound config (ix.place driverId position) where
  toConsistent := h.toConsistent.place driverId position
  config_eq := h.config_eq
  isValid := by
    intro d x hx
    rw [lookup_place] at hx
    split at hx
    · exact Option.some.inj hx ▸ hvalid
    · exact h.isValid d x hx

theorem foldl_remove (ids : List String) : Sound config (ids.foldl Index.remove ix) where
  toConsistent := h.toConsistent.foldl_remove ids
  config_eq := (config_foldl_remove ix ids).trans h.config_eq
  isValid := by
    intro d x hx
    rw [lookup_foldl_remove] at hx
    split at hx
    · cases hx
    · exact h.isValid d x hx

/-- **Every operation keeps it.**  Only an update brings a position, and it refuses all but valid
ones. -/
theorem run (op : Operation) : Sound config (ix.run op).2 := by
  cases op with
  | update driverId latitude longitude observedAt =>
    rw [run_update]
    split
    · exact h
    · split
      · rename_i hvalid
        exact h.place driverId hvalid
      · exact h
  | nearest latitude longitude limit =>
    show Sound config (ix.afterNearest latitude longitude limit)
    rw [h.afterNearest_eq]
    exact h
  | sweep now limit => exact h.foldl_remove _
  | sweepStale now => exact h.foldl_remove _
  | remove driverId => exact h.foldl_remove [driverId]
  | lookup | driversIn | cellOf | records | stats | size => exact h

theorem after (history : List Operation) : Sound config (ix.after history) := by
  induction history generalizing ix with
  | nil => exact h
  | cons op history ih => exact ih (h.run op)

end Sound

/-- **It holds after every history.** -/
theorem sound_after (config : IndexConfig) (history : List Operation) :
    Sound config ((new config).after history) :=
  (sound_new config).after history

/-! ## Drivers across an edge -/

/-- **A search of the neighbourhood finds every driver less than half a cell away.**  This holds of
every valid configuration, of every state that the index can reach, and for all coordinates, on both
sides of zero and at the ends of their ranges, if differences are differences of plain numbers; the
cells may be of any size. -/
theorem neighbors_found {config : Config} (hconfig : config.fault? = none)
    (hmode : config.index.neighborSearch = true) (history : List Operation)
    {latitude longitude : Float} (hvalid : Geo.isValid latitude longitude)
    {d : String} {x : Position}
    (hfound : ((new config.index).after history).lookup d = some x)
    (hclose : Geo.IsClose config.index.cellSize latitude longitude x.latitude x.longitude)
    {limit : Nat} (hlimit : ((new config.index).after history).size ≤ limit) :
    ∃ ids, ((new config.index).after history).nearest latitude longitude limit = .ok ids ∧
      d ∈ ids := by
  have h := sound_after config.index history
  generalize (new config.index).after history = ix at *
  refine ⟨_, h.nearest_all hvalid hlimit, ?_⟩
  obtain ⟨p, hp, rfl⟩ := Option.map_eq_some_iff.mp hfound
  rw [sorted, List.mem_mergeSort, h.mem_scanned]
  refine ⟨p, hp, decide_eq_true ?_⟩
  rw [scannedCells, cellOf, cellOf, h.config_eq, if_pos hmode]
  exact Cell.mem_neighborhood (Config.isAbove_cellSize hconfig) hvalid (h.isValid d _ hfound) hclose

/-- A driver and a query on both sides of zero, a quarter of a degree apart. -/
theorem neighbors_found_across_zero :
    let config : Config := { index := { cellSize := 1, neighborSearch := true } }
    let ix := (new config.index).after [.update "d" 0 0.125 0]
    config.fault? = none ∧ ix.lookup "d" = some ⟨0, 0.125, 0⟩ ∧
      Geo.IsClose config.index.cellSize 0 (-0.125) 0 0.125 ∧
      ∃ ids, ix.nearest 0 (-0.125) 5 = .ok ids ∧ "d" ∈ ids := by
  intro config ix
  have hconfig : config.fault? = none := by decide +kernel
  have hfound : ix.lookup "d" = some ⟨0, 0.125, 0⟩ := by decide +kernel
  have hclose : Geo.IsClose config.index.cellSize 0 (-0.125) 0 0.125 := by
    have hedge : Binary64.ofFloat 1 = .finite false (2 ^ 52) (-52) := by decide +kernel
    have hwest : Binary64.ofFloat (-0.125) = .finite true (2 ^ 52) (-55) := by decide +kernel
    have heast : Binary64.ofFloat 0.125 = .finite false (2 ^ 52) (-55) := by decide +kernel
    unfold Geo.IsClose value
    rw [sub_self, hwest, heast, hedge]
    norm_num [Binary64.value]
  exact ⟨hconfig, hfound, hclose,
    neighbors_found hconfig rfl [.update "d" 0 0.125 0] (by decide) hfound hclose
      (by decide +kernel)⟩

/-- **A driver just across the meridian where longitudes end is hidden,** a quarter of a degree away
and with cells of one degree. -/
theorem antimeridian_hides_driver :
    let config : Config := { index := { cellSize := 1, neighborSearch := true } }
    let ix := (new config.index).after [.update "d" 0 179.875 0]
    config.fault? = none ∧ ix.lookup "d" = some ⟨0, 179.875, 0⟩ ∧
      Geo.isValid 0 (-179.875) = true ∧ ix.size ≤ 5 ∧
      Geo.arc (-179.875) 179.875 < value config.index.cellSize / 2 ∧
      ix.nearest 0 (-179.875) 5 = .ok [] := by
  intro config ix
  have hclose : Geo.arc (-179.875) 179.875 < value config.index.cellSize / 2 := by
    have hedge : Binary64.ofFloat 1 = .finite false (2 ^ 52) (-52) := by decide +kernel
    have hwest : Binary64.ofFloat (-179.875) = .finite true 6328788929478656 (-45) := by
      decide +kernel
    have heast : Binary64.ofFloat 179.875 = .finite false 6328788929478656 (-45) := by
      decide +kernel
    unfold Geo.arc value
    rw [hwest, heast, hedge]
    norm_num [Binary64.value]
  have hnearest : ix.nearest 0 (-179.875) 5 = .ok [] := by
    have hscanned : ix.scanned 0 (-179.875) = [] := by decide +kernel
    rw [(consistent_after config.index _).nearest_sorted (by decide), sorted, hscanned,
      List.mergeSort_nil, List.take_nil]
  exact ⟨by decide +kernel, by decide +kernel, by decide, by decide +kernel, hclose, hnearest⟩

end Index
end Fleet
