import Fleet.Proofs.Index.Vicinity

/-!
# The cells around a cell

The neighbourhood of a cell is made of sums of 64-bit numbers.  As long as none of them leaves the
range, it is the nine cells at most one row and one column away.  The number of a cell is a quotient
that is held at the ends of the range, so it may lie at an end, and there sums are carried round to
the other one: the edge of cells may be as small as one likes.  Main statements:
`scanned_surroundings` with the condition on the quotients under which no sum leaves the range, and
`saturated_cell_reaches_round`, a search that finds a driver at the other end.
-/

namespace Fleet

open Rounding

/-! ## Nine cells -/

namespace Cell

variable {c e : Cell}

/-- How many rows or columns two cells are apart, whichever are more. -/
def distance (c e : Cell) : ℤ :=
  max |e.lat.toInt - c.lat.toInt| |e.lon.toInt - c.lon.toInt|

/-- Whether all sums that make up a neighbourhood are exact. -/
def AddsExactly (c : Cell) : Prop :=
  ∀ δ ∈ offsets, (c.lat + δ.1).toInt = c.lat.toInt + δ.1.toInt ∧
    (c.lon + δ.2).toInt = c.lon.toInt + δ.2.toInt

theorem offsets_bounds : ∀ δ ∈ offsets, (-1 ≤ δ.1.toInt ∧ δ.1.toInt ≤ 1) ∧
    -1 ≤ δ.2.toInt ∧ δ.2.toInt ≤ 1 := by
  have hone : (1 : Int64).toInt = 1 := rfl
  simp [offsets, hone]

/-- **The sums are exact if and only if the cell is not at an end of the range.** -/
theorem addsExactly_iff : c.AddsExactly ↔ c.hasRoom = true := by
  have hends : c.hasRoom = true ↔ (-2 ^ 63 < c.lat.toInt ∧ c.lat.toInt < 2 ^ 63 - 1) ∧
      -2 ^ 63 < c.lon.toInt ∧ c.lon.toInt < 2 ^ 63 - 1 := by
    simp only [hasRoom, Bool.and_eq_true, decide_eq_true_eq, Int64.lt_iff_toInt_lt, and_assoc]
    rfl
  simp only [hends, AddsExactly, toInt_add_eq_iff]
  constructor
  · intro hsums
    obtain ⟨⟨hsouth, -⟩, ⟨hwest, -⟩⟩ := hsums (-1, -1) (by decide)
    obtain ⟨⟨-, hnorth⟩, ⟨-, heast⟩⟩ := hsums (1, 1) (by decide)
    have hone : (1 : Int64).toInt = 1 := rfl
    have hminus : (-1 : Int64).toInt = -1 := rfl
    simp only [hone, hminus] at hsouth hwest hnorth heast
    omega
  · intro hroom δ hδ
    have hbounds := offsets_bounds δ hδ
    omega

/-- Cells at most one row and one column away are in the neighbourhood. -/
theorem mem_neighborhood_of_distance_le (h : c.distance e ≤ 1) : e ∈ c.neighborhood := by
  obtain ⟨hrow, hcolumn⟩ := max_le_iff.mp h
  obtain ⟨dlat, hdlat, hlat⟩ := exists_eq_add_of_abs_sub_le hrow
  obtain ⟨dlon, hdlon, hlon⟩ := exists_eq_add_of_abs_sub_le hcolumn
  have hshift : e = c.shift dlat dlon := Cell.mk.injEq .. |>.mpr ⟨hlat, hlon⟩
  exact hshift ▸ shift_mem_neighborhood c hdlat hdlon

/-- **And no others,** if all sums are exact. -/
theorem AddsExactly.mem_neighborhood_iff (h : c.AddsExactly) :
    e ∈ c.neighborhood ↔ c.distance e ≤ 1 := by
  refine ⟨fun hmem => ?_, mem_neighborhood_of_distance_le⟩
  obtain ⟨δ, hδ, rfl⟩ := List.mem_map.mp hmem
  obtain ⟨hlat, hlon⟩ := h δ hδ
  obtain ⟨hrow, hcolumn⟩ := offsets_bounds δ hδ
  rw [distance, shift, hlat, hlon, add_sub_cancel_left, add_sub_cancel_left]
  exact max_le_iff.mpr ⟨abs_le.mpr hrow, abs_le.mpr hcolumn⟩

end Cell

/-! ## Coordinates -/

/-- **Cells that are not too small leave all coordinates in range.** -/
theorem Geo.inRange_of_isValid {edge latitude longitude : Float} (hedge : IsAbove edge)
    (hlarge : 2 ^ (-54 : ℤ) ≤ value edge) (h : isValid latitude longitude) :
    InRange (latitude / edge) ∧ InRange (longitude / edge) := by
  have hquotient {x : Float} (hx : Within x (2 ^ (8 : ℤ))) : InRange (x / edge) := by
    have hwithin : Within (x / edge) (2 ^ (62 : ℤ)) :=
      hx.div hedge.isFinite (zpow_pos two_pos _) (hlarge.trans_eq hedge.value_eq.1) (by norm_num)
        (by norm_num) (zpow_add₀ two_ne_zero 62 (-54)).le
    refine ⟨hwithin.isFinite, ?_⟩
    rw [abs_value hwithin.isFinite]
    exact hwithin.magnitude_le.trans_lt (zpow_lt_zpow_right₀ one_lt_two (by norm_num))
  obtain ⟨hlat, hlon⟩ := within_of_isValid h
  exact ⟨hquotient hlat, hquotient hlon⟩

/-- **Where sums are exact:** both quotients are in the range. -/
theorem Cell.addsExactly_of_iff {edge latitude longitude : Float} (hedge : IsAbove edge)
    (h : Geo.isValid latitude longitude) :
    (Cell.of latitude longitude edge).AddsExactly ↔
      InRange (latitude / edge) ∧ InRange (longitude / edge) := by
  obtain ⟨hlat, hlon⟩ := Geo.isFinite_of_isValid h
  rw [addsExactly_iff, hasRoom, ← floorInt64_inside_iff (isFinite_or_isInf_div hlat hedge),
    ← floorInt64_inside_iff (isFinite_or_isInf_div hlon hedge)]
  simp only [Bool.and_eq_true, decide_eq_true_eq, and_assoc]
  rfl

namespace Index

/-- **What a search of the neighbourhood looks into.**  For every valid configuration, in every
state that the index can reach, and for every valid coordinate it is nine different cells, the cell
of the coordinate first, and all cells at most one row and one column away are among them.  If the
quotients that number the cell are in the range, no sum leaves it and there are no others; cells of
at least `2 ^ (-54)` degrees see to that. -/
theorem scanned_surroundings {config : Config} (hconfig : config.fault? = none)
    (hmode : config.index.neighborSearch = true) (history : List Operation)
    {latitude longitude : Float} (hvalid : Geo.isValid latitude longitude) :
    let ix := (new config.index).after history
    let home := ix.cellOf latitude longitude
    let cells := ix.scannedCells latitude longitude
    let inRange := InRange (latitude / config.index.cellSize) ∧
      InRange (longitude / config.index.cellSize)
    cells.head? = some home ∧ cells.length = 9 ∧ cells.Nodup ∧
      (∀ c, home.distance c ≤ 1 → c ∈ cells) ∧
      (home.AddsExactly ↔ inRange) ∧
      (inRange → ∀ c, c ∈ cells ↔ home.distance c ≤ 1) ∧
      (2 ^ (-54 : ℤ) ≤ value config.index.cellSize → inRange) := by
  intro ix home cells inRange
  have hedge := Config.isAbove_cellSize hconfig
  have hconfig_eq : ix.config = config.index := config_after config.index history
  have hcells : cells = home.neighborhood := by
    simp only [cells, scannedCells, hconfig_eq, hmode, if_true]
    rfl
  have hexact : home.AddsExactly ↔ inRange := by
    simp only [home, cellOf, hconfig_eq]
    exact Cell.addsExactly_of_iff hedge hvalid
  rw [hcells]
  refine ⟨?_, rfl, home.nodup_neighborhood, fun c hc => Cell.mem_neighborhood_of_distance_le hc,
    hexact, fun hin c => (hexact.mpr hin).mem_neighborhood_iff,
    fun hlarge => Geo.inRange_of_isValid hedge hlarge hvalid⟩
  show some (home.shift 0 0) = some home
  simp [Cell.shift]

/-- Cells of one degree. -/
theorem scanned_surroundings_of_degrees :
    let config : Config := { index := { cellSize := 1, neighborSearch := true } }
    config.fault? = none ∧ Geo.isValid 10 20 = true ∧
      2 ^ (-54 : ℤ) ≤ value config.index.cellSize ∧
      ∀ c, c ∈ (new config.index).scannedCells 10 20 ↔
        ((new config.index).cellOf 10 20).distance c ≤ 1 := by
  intro config
  have hconfig : config.fault? = none := by decide +kernel
  have hvalid : Geo.isValid 10 20 = true := by decide
  have hlarge : 2 ^ (-54 : ℤ) ≤ value config.index.cellSize := by
    have hedge : Binary64.ofFloat 1 = .finite false (2 ^ 52) (-52) := by decide +kernel
    rw [value, hedge]
    norm_num [Binary64.value]
  obtain ⟨-, -, -, -, -, hcells, hin⟩ := scanned_surroundings hconfig rfl [] hvalid
  exact ⟨hconfig, hvalid, hlarge, hcells (hin hlarge)⟩

/-- **With cells of `1e-18` degrees a search reaches round to the other end of the rows.**  The cell
of the query is held at the northern end of the range.  The row after it is the one at the southern
end, and there a driver is found that is twenty degrees away. -/
theorem saturated_cell_reaches_round :
    let config : Config := { index := { cellSize := 1e-18, neighborSearch := true } }
    let ix := (new config.index).after [.update "d" (-10) 20 0]
    let home := ix.cellOf 10 20
    let across : Cell := ⟨Int64.minValue, Int64.maxValue⟩
    config.fault? = none ∧ Geo.isValid 10 20 = true ∧
      home = ⟨Int64.maxValue, Int64.maxValue⟩ ∧ ¬home.AddsExactly ∧
      across ∈ ix.scannedCells 10 20 ∧ home.distance across = 2 ^ 64 - 1 ∧
      ix.nearest 10 20 5 = .ok ["d"] := by
  intro config ix home across
  have hhome : home = ⟨Int64.maxValue, Int64.maxValue⟩ := by decide +kernel
  have hnearest : ix.nearest 10 20 5 = .ok ["d"] := by
    have hscanned : ix.scanned 10 20 = ["d"] := by decide +kernel
    rw [(consistent_after config.index _).nearest_sorted (by decide), sorted, hscanned,
      List.mergeSort_singleton]
    rfl
  refine ⟨by decide +kernel, by decide, hhome, ?_, by decide +kernel, ?_, hnearest⟩
  · rw [Cell.addsExactly_iff, hhome]
    decide
  · have hmin : Int64.minValue.toInt = -2 ^ 63 := rfl
    have hmax : Int64.maxValue.toInt = 2 ^ 63 - 1 := rfl
    rw [hhome, Cell.distance, hmin, hmax]
    norm_num

end Index
end Fleet
