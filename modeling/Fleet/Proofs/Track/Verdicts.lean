import Mathlib.Data.List.Forall2
import Fleet.Track.Analyzer

/-!
# Verdicts of an analysis

An analysis is its points, each under the verdict on the edge that leads to it, if there is one
(`points_analyzeWith`), and the count of the anomalies among these verdicts
(`anomalyCount_analyzeWith`).  A verdict estimates a location just where it finds an anomaly, and it
moves no point.
-/

namespace Fleet

/-- **A verdict is lawful** if it estimates a location just where it finds an anomaly. -/
def EdgeAnalysis.IsLawful (e : EdgeAnalysis) : Prop := e.estimatedLocation.isSome = e.isAnomaly

namespace Track

variable {metric : Metric} {limit : Float} {points : List TrackPoint}

/-- The verdicts on the points of a track.  On the first there is none. -/
def verdicts (metric : Metric) (limit : Float) (points : List TrackPoint) :
    List (Option EdgeAnalysis) :=
  (points.take 1).map (fun _ => none) ++ edges metric limit points

theorem annotated_eq : annotated metric limit points =
    List.zipWith annotate points (verdicts metric limit points) := by
  cases points <;> rfl

theorem length_verdicts : (verdicts metric limit points).length = points.length := by
  cases points with
  | nil => rfl
  | cons q points =>
    show (List.zipWith (edge? metric limit) (q :: points) points).length + 1 = points.length + 1
    rw [List.length_zipWith, List.length_cons, Nat.min_eq_right (Nat.le_succ _)]

/-- The first point adds no verdict. -/
theorem filterMap_verdicts : (verdicts metric limit points).filterMap id =
    (edges metric limit points).filterMap id := by
  cases points <;> rfl

/-- **A track is analyzed point by point.** -/
theorem points_analyzeWith (driverId : String) (computedAt : Timestamp) :
    (analyzeWith metric limit driverId points computedAt).points =
      List.zipWith annotate points (verdicts metric limit points) := by
  unfold analyzeWith
  split
  · match points, ‹points.length < 2› with
    | [], _ => rfl
    | [q], _ => rfl
  · exact annotated_eq

/-- **The anomalies of an analysis are those among its verdicts.** -/
theorem anomalyCount_analyzeWith (driverId : String) (computedAt : Timestamp) :
    (analyzeWith metric limit driverId points computedAt).anomalyCount =
      anomalies ((verdicts metric limit points).filterMap id) := by
  unfold analyzeWith
  split
  · match points, ‹points.length < 2› with
    | [], _ => rfl
    | [q], _ => rfl
  · exact congrArg anomalies filterMap_verdicts.symm

/-- **Verdicts are lawful.** -/
theorem isLawful_of_mem_verdicts {e : EdgeAnalysis}
    (he : some e ∈ verdicts metric limit points) : e.IsLawful := by
  rcases List.mem_append.mp he with he | he
  · obtain ⟨q, -, heq⟩ := List.mem_map.mp he
    cases heq
  · rw [edges, ← List.map_uncurry_zip_eq_zipWith] at he
    obtain ⟨⟨q, r⟩, -, hedge⟩ := List.mem_map.mp he
    simp only [Function.uncurry_apply_pair, edge?] at hedge
    split at hedge
    · cases hedge
    · cases hedge
      unfold assess
      dsimp only
      split <;> rfl

theorem forall₂_zipWith {α β γ : Type} {f : α → β → γ} {R : α → γ → Prop} {l : List α}
    {l' : List β} (hlength : l.length ≤ l'.length) (h : ∀ a ∈ l, ∀ b ∈ l', R a (f a b)) :
    List.Forall₂ R l (List.zipWith f l l') := by
  induction l generalizing l' with
  | nil => exact .nil
  | cons a l ih =>
    cases l' with
    | nil => cases hlength
    | cons b l' =>
      refine .cons (h a List.mem_cons_self b List.mem_cons_self) ?_
      exact ih (Nat.le_of_succ_le_succ hlength) fun a' ha' b' hb' =>
        h a' (List.mem_cons_of_mem _ ha') b' (List.mem_cons_of_mem _ hb')

/-- A verdict changes neither whose a point is nor where and when. -/
theorem annotate_fix (q : TrackPoint) (verdict : Option EdgeAnalysis) :
    (annotate q verdict).driverId = q.driverId ∧ (annotate q verdict).position = q.position := by
  cases verdict <;> exact ⟨rfl, rfl⟩

/-- **The points of an analysis are those of the track,** each under its verdict. -/
theorem forall₂_points_analyzeWith (metric : Metric) (limit : Float) (driverId : String)
    (computedAt : Timestamp) :
    List.Forall₂ (fun q r => r.driverId = q.driverId ∧ r.position = q.position) points
      (analyzeWith metric limit driverId points computedAt).points := by
  rw [points_analyzeWith]
  exact forall₂_zipWith (Nat.le_of_eq length_verdicts.symm) fun q _ verdict _ =>
    annotate_fix q verdict

end Track
end Fleet
