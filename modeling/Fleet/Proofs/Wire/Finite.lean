import Fleet.Proofs.Json.Finite
import Fleet.Proofs.Wire.Track
import Fleet.Track.Analyzer

/-!
# Records of finite numbers are read back

Reading back a point or an analysis fails if one of its floats is not finite, which is written as
null.  This is the only reason, but for a count that does not fit 64 bits.
-/

namespace Fleet

open Rounding

/-! ## Records of finite numbers -/

/-- **A position is finite** if both of its coordinates are. -/
structure Position.IsFinite (p : Position) : Prop where
  latitude : p.latitude.isFinite = true
  longitude : p.longitude.isFinite = true

structure EdgeAnalysis.IsFinite (e : EdgeAnalysis) : Prop where
  speed : e.speed.isFinite = true
  confidence : e.confidence.isFinite = true
  estimatedLocation : ∀ p, e.estimatedLocation = some p → p.IsFinite

structure TrackPoint.IsFinite (q : TrackPoint) : Prop where
  position : q.position.IsFinite
  speed : q.speed.isFinite = true
  analysis : ∀ e, q.analysis = some e → e.IsFinite

/-- **An analysis is finite** if all numbers in it are, those of its points included. -/
structure TrackAnalysis.IsFinite (a : TrackAnalysis) : Prop where
  points : ∀ q ∈ a.points, q.IsFinite
  averageSpeed : a.averageSpeed.isFinite = true
  maxSpeed : a.maxSpeed.isFinite = true
  confidence : a.confidence.isFinite = true

/-- **A position is moderate** if its coordinates are not far out of range. -/
structure Position.IsModerate (p : Position) : Prop where
  latitude : Within p.latitude (2 ^ (64 : ℤ))
  longitude : Within p.longitude (2 ^ (64 : ℤ))

theorem Geo.isFinite_of_isValid {latitude longitude : Float} (h : isValid latitude longitude) :
    latitude.isFinite = true ∧ longitude.isFinite = true := by
  simp only [isValid, Bool.and_eq_true] at h
  exact h.1.1.1.1

/-- Valid coordinates are in range. -/
theorem Geo.within_of_isValid {latitude longitude : Float} (h : isValid latitude longitude) :
    Within latitude (2 ^ (8 : ℤ)) ∧ Within longitude (2 ^ (8 : ℤ)) := by
  simp only [isValid, Bool.and_eq_true, decide_eq_true_eq] at h
  obtain ⟨⟨⟨⟨⟨hlatitude, hlongitude⟩, hsouth⟩, hnorth⟩, hwest⟩, heast⟩ := h
  have hright : Within 90 (2 ^ (8 : ℤ)) :=
    (approximates_ofNat (n := 90) (by norm_num)).within (by norm_num) (by norm_num)
  have hstraight : Within 180 (2 ^ (8 : ℤ)) :=
    (approximates_ofNat (n := 180) (by norm_num)).within (by norm_num) (by norm_num)
  exact ⟨⟨hlatitude, magnitude_le_of_between hlatitude hright.neg hright hsouth hnorth⟩,
    ⟨hlongitude, magnitude_le_of_between hlongitude hstraight.neg hstraight hwest heast⟩⟩

/-- A track that is too short to have an edge is analyzed in finite numbers. -/
theorem TrackAnalysis.isFinite_insufficient {driverId : String} {points : List TrackPoint}
    {computedAt : Timestamp} (h : ∀ q ∈ points, q.IsFinite) :
    (insufficient driverId points computedAt).IsFinite where
  points := h
  averageSpeed := show (0 : Float).isFinite = true from rfl
  maxSpeed := show (0 : Float).isFinite = true from rfl
  confidence := show (1 : Float).isFinite = true from rfl

namespace Wire

/-! ## Lists and fields that may be absent -/

/-- A list of records that can all be read is read, record by record. -/
theorem mapM_of_forall {α β : Type} {f : α → Option β} {l : List α}
    (h : ∀ a ∈ l, ∃ b, f a = some b) : ∃ l', l.mapM f = some l' := by
  induction l with
  | nil => exact ⟨[], rfl⟩
  | cons a l ih =>
    obtain ⟨b, hb⟩ := h a List.mem_cons_self
    obtain ⟨l', hl'⟩ := ih fun a ha => h a (List.mem_cons_of_mem _ ha)
    exact ⟨b :: l', by rw [List.mapM_cons, hb, hl']; rfl⟩

theorem exists_ofJson?_list {α : Type} [Wire α] {as : List α}
    (h : ∀ a ∈ as, ∃ b : α, ofJson? (toJson a) = some b) :
    ∃ bs : List α, ofJson? (toJson as) = some bs := by
  show ∃ bs : List α, (as.map toJson).mapM ofJson? = some bs
  rw [List.mapM_map]
  exact mapM_of_forall h

theorem exists_nullable {α : Type} [Wire α] {o : Option α}
    (h : ∀ a, o = some a → ∃ b : α, ofJson? (toJson a) = some b) :
    ∃ o' : Option α, nullable (o.map toJson) = some o' := by
  cases o with
  | none => exact ⟨none, rfl⟩
  | some a =>
    obtain ⟨b, hb⟩ := h a rfl
    rw [Option.map_some]
    unfold nullable
    split
    · exact ⟨none, rfl⟩
    · exact ⟨none, rfl⟩
    · rename_i j hj
      cases hj
      exact ⟨some b, by rw [hb, Option.map_some]⟩

/-! ## Records -/

/-- What is read back of a written position, field by field. -/
theorem ofJson?_toJson_position (p : Position) :
    (ofJson? (toJson p) : Option Position) = do
      let latitude ← ofJson? (toJson p.latitude)
      let longitude ← ofJson? (toJson p.longitude)
      return { p with latitude, longitude } := by
  have hfields := fields?_record [
    ("latitude", some (toJson p.latitude)),
    ("longitude", some (toJson p.longitude)),
    ("observed_at_ms", some (toJson p.observedAt))] (by simp)
  simp only [List.map_cons, List.map_nil] at hfields
  delta instWirePosition
  simp only [hfields, required, Option.bind_some, ofJson?_toJson_int64, Option.bind_eq_bind]

theorem exists_ofJson?_position {p : Position} (h : p.IsFinite) :
    ∃ p' : Position, ofJson? (toJson p) = some p' := by
  obtain ⟨latitude, hlatitude⟩ := exists_ofJson?_float h.latitude
  obtain ⟨longitude, hlongitude⟩ := exists_ofJson?_float h.longitude
  refine ⟨{ p with latitude, longitude }, ?_⟩
  rw [ofJson?_toJson_position, hlatitude, hlongitude]
  rfl

/-- What is read back of a written verdict, field by field. -/
theorem ofJson?_toJson_edge (e : EdgeAnalysis) :
    (ofJson? (toJson e) : Option EdgeAnalysis) = do
      let speed ← ofJson? (toJson e.speed)
      let confidence ← ofJson? (toJson e.confidence)
      let estimatedLocation ← nullable (e.estimatedLocation.map toJson)
      return { e with speed, confidence, estimatedLocation } := by
  have hanomaly : (ofJson? (toJson e.isAnomaly) : Option Bool) = some e.isAnomaly := rfl
  have hfields := fields?_record [
    ("calculated_speed_kph", some (toJson e.speed)),
    ("confidence", some (toJson e.confidence)),
    ("is_anomaly", some (toJson e.isAnomaly)),
    ("estimated_location", e.estimatedLocation.map toJson)] (by simp)
  simp only [List.map_cons, List.map_nil] at hfields
  delta instWireEdgeAnalysis
  simp only [hfields, required, Option.bind_some, hanomaly, Option.bind_eq_bind]

theorem exists_ofJson?_edge {e : EdgeAnalysis} (h : e.IsFinite) :
    ∃ e' : EdgeAnalysis, ofJson? (toJson e) = some e' := by
  obtain ⟨speed, hspeed⟩ := exists_ofJson?_float h.speed
  obtain ⟨confidence, hconfidence⟩ := exists_ofJson?_float h.confidence
  obtain ⟨estimatedLocation, hlocation⟩ := exists_nullable fun p hp =>
    exists_ofJson?_position (h.estimatedLocation p hp)
  refine ⟨{ e with speed, confidence, estimatedLocation }, ?_⟩
  rw [ofJson?_toJson_edge, hspeed, hconfidence, hlocation]
  rfl

/-- What is read back of a written point, field by field. -/
theorem ofJson?_toJson_point (q : TrackPoint) :
    (ofJson? (toJson q) : Option TrackPoint) = do
      let position ← ofJson? (toJson q.position)
      let speed ← ofJson? (toJson q.speed)
      let verdict ← nullable (q.analysis.map toJson)
      return { q with position, speed, analysis := verdict } := by
  have hfields := fields?_record [
    ("driver_id", some (toJson q.driverId)),
    ("position", some (toJson q.position)),
    ("speed_kph", some (toJson q.speed)),
    ("analysis", q.analysis.map toJson)] (by simp)
  simp only [List.map_cons, List.map_nil] at hfields
  delta instWireTrackPoint
  simp only [hfields, required, orDefault, Option.bind_some, ofJson?_toJson_string,
    Option.bind_eq_bind]

/-- **A point of finite numbers is read back.** -/
theorem exists_ofJson?_point {q : TrackPoint} (h : q.IsFinite) :
    ∃ q' : TrackPoint, ofJson? (toJson q) = some q' := by
  obtain ⟨position, hposition⟩ := exists_ofJson?_position h.position
  obtain ⟨speed, hspeed⟩ := exists_ofJson?_float h.speed
  obtain ⟨verdict, hverdict⟩ := exists_nullable fun e he => exists_ofJson?_edge (h.analysis e he)
  refine ⟨{ q with position, speed, analysis := verdict }, ?_⟩
  rw [ofJson?_toJson_point, hposition, hspeed, hverdict]
  rfl

/-! ## What is read is finite -/

theorem exists_of_required {α : Type} [Wire α] {o : Option Json} {a : α}
    (h : required o = some a) : ∃ j, ofJson? j = some a := by
  obtain ⟨j, -, hj⟩ := Option.bind_eq_some_iff.mp h
  exact ⟨j, hj⟩

theorem exists_of_nullable {α : Type} [Wire α] {o : Option Json} {a : α}
    (h : nullable o = some (some a)) : ∃ j, ofJson? j = some a := by
  unfold nullable at h
  split at h
  · cases h
  · cases h
  · rename_i j hj
    obtain ⟨b, hb, heq⟩ := Option.map_eq_some_iff.mp h
    cases heq
    exact ⟨j, hb⟩

theorem isFinite_of_required {o : Option Json} {x : Float} (h : required o = some x) :
    x.isFinite = true := by
  obtain ⟨j, hj⟩ := exists_of_required h
  exact isFinite_of_ofJson? hj

theorem isFinite_of_orDefault {o : Option Json} {x : Float}
    (h : orDefault (0 : Float) o = some x) : x.isFinite = true := by
  cases o with
  | none =>
    cases h
    rfl
  | some j => exact isFinite_of_ofJson? h

theorem isFinite_position_of_ofJson? {j : Json} {p : Position} (h : ofJson? j = some p) :
    p.IsFinite := by
  delta instWirePosition at h
  dsimp only at h
  split at h
  · simp only [Option.bind_eq_bind, Option.bind_eq_some_iff, Option.pure_def,
      Option.some.injEq] at h
    obtain ⟨x, hx, y, hy, t, -, rfl⟩ := h
    exact ⟨isFinite_of_required hx, isFinite_of_required hy⟩
  · cases h

theorem isFinite_edge_of_ofJson? {j : Json} {e : EdgeAnalysis} (h : ofJson? j = some e) :
    e.IsFinite := by
  delta instWireEdgeAnalysis at h
  dsimp only at h
  split at h
  · simp only [Option.bind_eq_bind, Option.bind_eq_some_iff, Option.pure_def,
      Option.some.injEq] at h
    obtain ⟨x, hx, y, hy, b, -, location, hlocation, rfl⟩ := h
    refine ⟨isFinite_of_required hx, isFinite_of_required hy, ?_⟩
    rintro p rfl
    obtain ⟨j, hj⟩ := exists_of_nullable hlocation
    exact isFinite_position_of_ofJson? hj
  · cases h

/-- **A point that is read is finite.** -/
theorem isFinite_point_of_ofJson? {j : Json} {q : TrackPoint} (h : ofJson? j = some q) :
    q.IsFinite := by
  delta instWireTrackPoint at h
  dsimp only at h
  split at h
  · simp only [Option.bind_eq_bind, Option.bind_eq_some_iff, Option.pure_def,
      Option.some.injEq] at h
    obtain ⟨d, -, p, hp, x, hx, verdict, hverdict, rfl⟩ := h
    obtain ⟨j, hj⟩ := exists_of_required hp
    refine ⟨isFinite_position_of_ofJson? hj, isFinite_of_orDefault hx, ?_⟩
    rintro e rfl
    obtain ⟨j, hj⟩ := exists_of_nullable hverdict
    exact isFinite_edge_of_ofJson? hj
  · cases h

/-- **Coordinates that the store accepts** are moderate when they are read back. -/
theorem isModerate_of_ofJson? {p p' : Position} (hp : p.isValid = true)
    (h : ofJson? (toJson p) = some p') : p'.IsModerate := by
  obtain ⟨hlatitude, hlongitude⟩ := Geo.within_of_isValid hp
  rw [ofJson?_toJson_position] at h
  simp only [Option.bind_eq_bind, Option.bind_eq_some_iff, Option.pure_def,
    Option.some.injEq] at h
  obtain ⟨x, hx, y, hy, rfl⟩ := h
  exact ⟨within_of_ofJson? hlatitude hx, within_of_ofJson? hlongitude hy⟩

theorem position_of_ofJson? {q r : TrackPoint} (h : ofJson? (toJson q) = some r) :
    ofJson? (toJson q.position) = some r.position := by
  rw [ofJson?_toJson_point] at h
  simp only [Option.bind_eq_bind, Option.bind_eq_some_iff, Option.pure_def,
    Option.some.injEq] at h
  obtain ⟨p, hp, x, -, verdict, -, rfl⟩ := h
  exact hp

/-- **An analysis of finite numbers is read back** once it is written. -/
theorem exists_read?_analysis {a : TrackAnalysis} (h : a.IsFinite)
    (hcount : a.anomalyCount < 2 ^ 64) : ∃ b : TrackAnalysis, read? (write a) = some b := by
  obtain ⟨points, hpoints⟩ := exists_ofJson?_list fun q hq => exists_ofJson?_point (h.points q hq)
  obtain ⟨averageSpeed, haverage⟩ := exists_ofJson?_float h.averageSpeed
  obtain ⟨maxSpeed, hmax⟩ := exists_ofJson?_float h.maxSpeed
  obtain ⟨confidence, hconfidence⟩ := exists_ofJson?_float h.confidence
  refine ⟨{ a with points, averageSpeed, maxSpeed, confidence }, ?_⟩
  rw [read?_write_analysis, hpoints, haverage, hmax, hconfidence, ofJson?_toJson_nat hcount]
  rfl

end Wire

/-! ## Anomalies are counted within the window -/

namespace Track

theorem anomalies_le (metric : Metric) (limit : Float) (points : List TrackPoint) :
    anomalies ((edges metric limit points).filterMap id) ≤ points.length := by
  calc anomalies ((edges metric limit points).filterMap id)
      ≤ ((edges metric limit points).filterMap id).length := List.countP_le_length
    _ ≤ (edges metric limit points).length := List.length_filterMap_le _ _
    _ ≤ points.length := by
      rw [edges, List.length_zipWith]
      exact Nat.min_le_left _ _

theorem anomalyCount_analyzeWith_le (metric : Metric) (limit : Float) (driverId : String)
    (points : List TrackPoint) (computedAt : Timestamp) :
    (analyzeWith metric limit driverId points computedAt).anomalyCount ≤ points.length := by
  unfold analyzeWith
  split
  · exact Nat.zero_le _
  · exact anomalies_le _ _ _

end Track
end Fleet
