import Fleet.Geo.Position

/-!
# Grid cells

The globe is cut into square cells of a given edge in degrees. A cell is named by the floor of its
latitude and longitude over the edge.
-/

namespace Fleet

/-- A cell of the grid. -/
structure Cell where
  lat : Int64
  lon : Int64
deriving DecidableEq, Repr, Inhabited

namespace Cell

/-- **The cell that holds a coordinate.** Quotients beyond 64 bits are held at the ends of the
range. -/
def of (latitude longitude edge : Float) : Cell where
  lat := (Binary64.ofFloat (latitude / edge)).floorInt64
  lon := (Binary64.ofFloat (longitude / edge)).floorInt64

/-- The cell `dlat` rows up and `dlon` columns to the right. Past the end of the 64-bit range the
count goes on at its other end. -/
def shift (c : Cell) (dlat dlon : Int64) : Cell := ⟨c.lat + dlat, c.lon + dlon⟩

/-- The offsets of a cell and its neighbours: none, then row by row from the south-west. -/
def offsets : List (Int64 × Int64) :=
  [(0, 0), (-1, -1), (-1, 0), (-1, 1), (0, -1), (0, 1), (1, -1), (1, 0), (1, 1)]

/-- A cell followed by its eight neighbours. -/
def neighborhood (c : Cell) : List Cell := offsets.map fun d => c.shift d.1 d.2

/-- Different offsets lead to different cells. -/
theorem shift_inj {c : Cell} {dlat dlon elat elon : Int64} :
    c.shift dlat dlon = c.shift elat elon ↔ dlat = elat ∧ dlon = elon := by
  simp [shift, Int64.add_right_inj]

/-- The nine cells of a neighborhood are different. -/
theorem nodup_neighborhood (c : Cell) : c.neighborhood.Nodup := by
  have hoffsets : offsets.Nodup := by decide
  refine List.pairwise_map.mpr (hoffsets.imp fun {d e} hne h => hne ?_)
  obtain ⟨hlat, hlon⟩ := shift_inj.mp h
  exact Prod.ext hlat hlon

/-- Whether no neighbour lies past the end of the 64-bit range. -/
def hasRoom (c : Cell) : Bool :=
  Int64.minValue < c.lat && c.lat < Int64.maxValue
    && Int64.minValue < c.lon && c.lon < Int64.maxValue

end Cell

end Fleet
