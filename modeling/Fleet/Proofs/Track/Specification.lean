import Fleet.Proofs.Number.Comparison
import Fleet.Proofs.Track.Verdicts

/-!
# What an analysis says

An analysis is described by the legs of the track, each found by the place of the point it leads to
(`legTo?`): which points are annotated, what is counted, which speed is the highest and what is
averaged.  Each of the sums has a rule of its own on the legs that take part, and legs in no time
take part in none of them but still count in the divisor of the average.
-/

namespace Fleet

namespace Track

/-! ## Legs -/

/-- Two neighbouring fixes of a track. -/
structure Leg where
  previous : Position
  current : Position
deriving DecidableEq

namespace Leg

/-- Time between the fixes in milliseconds, negative if the later fix has the earlier time. -/
def delta (leg : Leg) : Int64 :=
  Timestamp.since leg.current.observedAt leg.previous.observedAt

/-- Speed along the leg in km/h. -/
def speed (leg : Leg) : Float :=
  leg.previous.distanceKm leg.current * millisPerHour / Float.ofNat leg.delta.toInt.natAbs

/-- The part of the leg that can be covered at the limit in the time that the leg took. -/
def part (limit : Float) (leg : Leg) : Float :=
  limit * Float.ofNat leg.delta.toInt.natAbs / millisPerHour /
    leg.previous.distanceKm leg.current

/-- The end of that part, on the straight line in degrees, at the time of the later fix. -/
def farthest (limit : Float) (leg : Leg) : Position where
  latitude := leg.previous.latitude +
    (leg.current.latitude - leg.previous.latitude) * leg.part limit
  longitude := leg.previous.longitude +
    (leg.current.longitude - leg.previous.longitude) * leg.part limit
  observedAt := leg.current.observedAt

/-- **The verdict on a leg that took some time.**  A speed at most the limit is certain.  Any other
one, NaN included, is an anomaly: its confidence is the limit over the speed, and the later fix is
estimated to be as far along the leg as the limit allows. -/
def verdict (limit : Float) (leg : Leg) : EdgeAnalysis where
  speed := leg.speed
  confidence := if leg.speed ≤ limit then 1 else limit / leg.speed
  isAnomaly := ¬leg.speed ≤ limit
  estimatedLocation := if leg.speed ≤ limit then none else some (leg.farthest limit)

variable {limit : Float} {leg : Leg}

theorem speed_verdict : (leg.verdict limit).speed = leg.speed := rfl

theorem confidence_verdict : (leg.verdict limit).confidence =
    if leg.speed ≤ limit then 1 else limit / leg.speed := rfl

theorem isAnomaly_verdict : (leg.verdict limit).isAnomaly = decide ¬leg.speed ≤ limit := rfl

/-- The two fixes of a leg are assessed as the verdict says. -/
theorem assess_eq_verdict : assess limit (leg.previous.distanceKm leg.current)
    (Float.ofNat leg.delta.toInt.natAbs) leg.previous leg.current = leg.verdict limit := by
  rw [verdict, assess]
  by_cases hspeed : leg.speed ≤ limit
  · rw [if_pos hspeed, if_pos hspeed, decide_eq_false (not_not_intro hspeed)]
    exact if_pos hspeed
  · rw [if_neg hspeed, if_neg hspeed, decide_eq_true hspeed]
    exact if_neg hspeed

theorem delta_eq_zero : elapsedMillis leg.previous leg.current = 0 ↔ leg.delta = 0 := by
  rw [elapsedMillis, Int.natAbs_eq_zero, ← Int64.toInt_inj]
  rfl

theorem edge?_eq {q r : TrackPoint} : edge? Position.distanceKm limit q r =
    if delta ⟨q.position, r.position⟩ = 0 then none
    else some (verdict limit ⟨q.position, r.position⟩) := by
  unfold edge?
  dsimp only
  by_cases hdelta : delta ⟨q.position, r.position⟩ = 0
  · rw [if_pos hdelta, if_pos (delta_eq_zero.mpr hdelta)]
  · rw [if_neg hdelta, if_neg (mt delta_eq_zero.mp hdelta), ← assess_eq_verdict]
    rfl

end Leg

variable {limit : Float} {points : List TrackPoint}

/-- The leg to the point at place `i`, if there is a point before it and some time has passed
since. -/
def legTo? (points : List TrackPoint) : Nat → Option Leg
  | 0 => none
  | i + 1 => do
    let q ← points[i]?
    let r ← points[i + 1]?
    let leg : Leg := ⟨q.position, r.position⟩
    if leg.delta = 0 then none else some leg

theorem legTo?_succ {i : Nat} {q r : TrackPoint} (hq : points[i]? = some q)
    (hr : points[i + 1]? = some r) (hdelta : Leg.delta ⟨q.position, r.position⟩ ≠ 0) :
    legTo? points (i + 1) = some ⟨q.position, r.position⟩ := by
  rw [legTo?, hq, hr]
  exact if_neg hdelta

/-- The legs of a track that took some time, oldest first. -/
def legs (points : List TrackPoint) : List Leg :=
  (List.range points.length).filterMap (legTo? points)

/-- **The verdict on the point at a place is that on the leg to it.** -/
theorem getElem?_verdicts (i : Nat) : (verdicts Position.distanceKm limit points)[i]? =
    points[i]?.map fun _ => (legTo? points i).map (Leg.verdict limit) := by
  cases points with
  | nil => rfl
  | cons q points =>
    cases i with
    | zero => rfl
    | succ i =>
      show (List.zipWith (edge? Position.distanceKm limit) (q :: points) points)[i]? = _
      rw [List.getElem?_zipWith, legTo?, List.getElem?_cons_succ]
      cases hr : points[i]? with
      | none => cases (q :: points)[i]? <;> rfl
      | some r =>
        -- whoever has a later point is a point
        have hi : i < (q :: points).length :=
          (List.getElem?_eq_some_iff.mp hr).1.trans (Nat.lt_succ_self _)
        rw [List.getElem?_eq_getElem hi]
        simp only [Option.map_some, Option.bind_eq_bind, Option.bind_some, Leg.edge?_eq]
        split <;> rfl

/-- **The verdicts of an analysis are those on its legs.** -/
theorem filterMap_edges : (edges Position.distanceKm limit points).filterMap id =
    (legs points).map (Leg.verdict limit) := by
  have hverdicts : verdicts Position.distanceKm limit points =
      (List.range points.length).map fun i => (legTo? points i).map (Leg.verdict limit) := by
    apply List.ext_getElem?
    intro i
    rw [getElem?_verdicts, List.getElem?_map]
    by_cases hi : i < points.length
    · rw [List.getElem?_eq_getElem hi, List.getElem?_range hi]
      rfl
    · rw [List.getElem?_eq_none (not_lt.mp hi),
        List.getElem?_eq_none (List.length_range.trans_le (not_lt.mp hi))]
      rfl
  rw [← filterMap_verdicts, hverdicts, legs, List.map_filterMap, List.filterMap_map]
  rfl

/-- **The point at a place, as analyzed.** -/
theorem getElem?_points_analyze (driverId : String) (computedAt : Timestamp) (i : Nat) :
    (analyze limit driverId points computedAt).points[i]? =
      points[i]?.map fun q => annotate q ((legTo? points i).map (Leg.verdict limit)) := by
  rw [analyze, points_analyzeWith, List.getElem?_zipWith, getElem?_verdicts]
  cases points[i]? <;> rfl

/-- The first point has no leg. -/
theorem legs_eq : legs points =
    (List.range (points.length - 1)).filterMap fun i => legTo? points (i + 1) := by
  cases hn : points.length with
  | zero => rw [legs, hn]; rfl
  | succ n =>
    rw [legs, hn, List.range_succ_eq_map, List.filterMap_cons_none rfl, List.filterMap_map]
    rfl

theorem length_legs_le : (legs points).length ≤ points.length - 1 := by
  rw [legs_eq]
  exact (List.length_filterMap_le _ _).trans_eq List.length_range

/-! ## The highest speed -/

/-- The larger of two speeds, the first unless the second exceeds it. -/
abbrev larger (highest speed : Float) : Float := if highest < speed then speed else highest

/-- **The highest of a list of numbers** and of the one that is given. -/
theorem foldl_larger {speeds : List Float} (hspeeds : ∀ s ∈ speeds, s.isNaN = false)
    {highest : Float} (hhighest : highest.isNaN = false) :
    (speeds.foldl larger highest = highest ∨ speeds.foldl larger highest ∈ speeds) ∧
      highest ≤ speeds.foldl larger highest ∧ ∀ s ∈ speeds, s ≤ speeds.foldl larger highest := by
  induction speeds generalizing highest with
  | nil => exact ⟨.inl rfl, Comparison.le_self hhighest, fun _ hs => absurd hs List.not_mem_nil⟩
  | cons s speeds ih =>
    obtain ⟨hs, hspeeds⟩ := List.forall_mem_cons.mp hspeeds
    have hstep : (larger highest s = highest ∨ larger highest s = s) ∧
        (larger highest s).isNaN = false ∧ highest ≤ larger highest s ∧ s ≤ larger highest s := by
      unfold larger
      split
      · rename_i hlt
        exact ⟨.inr rfl, hs, Comparison.le_of_lt hhighest hs hlt, Comparison.le_self hs⟩
      · rename_i hlt
        exact ⟨.inl rfl, hhighest, Comparison.le_self hhighest,
          (Comparison.not_lt_iff hhighest hs).mp hlt⟩
    obtain ⟨hwhich, hnumber, hhighest_le, hs_le⟩ := hstep
    obtain ⟨hmem, hle, hall⟩ := ih hspeeds hnumber
    rw [List.foldl_cons]
    refine ⟨?_, Comparison.le_trans hhighest_le hle,
      List.forall_mem_cons.mpr ⟨Comparison.le_trans hs_le hle, hall⟩⟩
    rcases hmem with hmem | hmem
    · rcases hwhich with hwhich | hwhich
      · exact .inl (hmem.trans hwhich)
      · exact .inr (List.mem_cons.mpr (.inl (hmem.trans hwhich)))
    · exact .inr (List.mem_cons_of_mem _ hmem)

/-- The highest speed of the plausible legs, zero if there is none. -/
def highest (limit : Float) (legs : List Leg) : Float :=
  ((legs.filter fun leg => leg.speed ≤ limit).map Leg.speed).foldl larger 0

theorem maxPlausibleSpeed_map_verdict (legs : List Leg) :
    maxPlausibleSpeed (legs.map (Leg.verdict limit)) = highest limit legs := by
  have hplausible : ((fun edge => !edge.isAnomaly) ∘ Leg.verdict limit) =
      fun leg => decide (leg.speed ≤ limit) := by
    funext leg
    simp [Leg.isAnomaly_verdict]
  rw [maxPlausibleSpeed, highest, List.filter_map, List.foldl_map, List.foldl_map, hplausible]
  rfl

/-- **The highest speed is that of a plausible leg or zero,** and none of them is higher. -/
theorem highest_spec (limit : Float) (legs : List Leg) :
    (highest limit legs = 0 ∨ ∃ leg ∈ legs, leg.speed ≤ limit ∧ highest limit legs = leg.speed) ∧
      0 ≤ highest limit legs ∧
        ∀ leg ∈ legs, leg.speed ≤ limit → leg.speed ≤ highest limit legs := by
  have hnumbers : ∀ s ∈ (legs.filter fun leg => leg.speed ≤ limit).map Leg.speed,
      s.isNaN = false := by
    intro s hs
    obtain ⟨leg, hleg, rfl⟩ := List.mem_map.mp hs
    exact (Comparison.isNaN_of_le (of_decide_eq_true (List.mem_filter.mp hleg).2)).1
  have hzero : (0 : Float).isNaN = false := rfl
  obtain ⟨hmem, hnonneg, hle⟩ := foldl_larger hnumbers hzero
  refine ⟨hmem.imp_right fun hmem => ?_, hnonneg, fun leg hleg hplausible => ?_⟩
  · obtain ⟨leg, hleg, hspeed⟩ := List.mem_map.mp hmem
    obtain ⟨hleg, hplausible⟩ := List.mem_filter.mp hleg
    exact ⟨leg, hleg, of_decide_eq_true hplausible, hspeed.symm⟩
  · exact hle _ (List.mem_map_of_mem (List.mem_filter.mpr ⟨hleg, decide_eq_true hplausible⟩))

/-! ## The sums -/

variable {driverId : String} {computedAt : Timestamp}

theorem legs_of_short (hshort : points.length < 2) : legs points = [] :=
  have hpoints : points.length - 1 = 0 := Nat.sub_eq_zero_of_le (Nat.le_of_lt_succ hshort)
  List.eq_nil_of_length_eq_zero (Nat.eq_zero_of_le_zero (length_legs_le.trans hpoints.le))

theorem analyze_of_short (hshort : points.length < 2) :
    analyze limit driverId points computedAt = .insufficient driverId points computedAt :=
  if_pos hshort

/-- The analysis of a track with two points or more. -/
theorem analyze_of_long (hlong : 2 ≤ points.length) :
    analyze limit driverId points computedAt =
      { driverId
        points := annotated Position.distanceKm limit points
        averageSpeed :=
          ((legs points).map Leg.speed).foldl (· + ·) 0 / Float.ofNat (points.length - 1)
        maxSpeed := highest limit (legs points)
        confidence := 1 - Float.ofNat ((legs points).countP fun leg => ¬leg.speed ≤ limit) /
          Float.ofNat points.length
        anomalyCount := (legs points).countP fun leg => ¬leg.speed ≤ limit
        computedAt } := by
  have htotal : totalSpeed ((legs points).map (Leg.verdict limit)) =
      ((legs points).map Leg.speed).foldl (· + ·) 0 := by
    rw [totalSpeed, List.foldl_map, List.foldl_map]
    simp only [Leg.speed_verdict]
  have hcount : anomalies ((legs points).map (Leg.verdict limit)) =
      (legs points).countP fun leg => ¬leg.speed ≤ limit := by
    rw [anomalies, List.countP_map]
    exact List.countP_congr fun leg _ => by rw [Function.comp, Leg.isAnomaly_verdict]
  unfold analyze analyzeWith
  rw [if_neg (not_lt.mpr hlong), filterMap_edges]
  dsimp only
  rw [htotal, hcount, maxPlausibleSpeed_map_verdict]

theorem anomalyCount_eq_countP : (analyze limit driverId points computedAt).anomalyCount =
    (legs points).countP fun leg => ¬leg.speed ≤ limit := by
  rcases Nat.lt_or_ge points.length 2 with hshort | hlong
  · rw [analyze_of_short hshort, legs_of_short hshort]
    rfl
  · rw [analyze_of_long hlong]

theorem maxSpeed_analyze :
    (analyze limit driverId points computedAt).maxSpeed = highest limit (legs points) := by
  rcases Nat.lt_or_ge points.length 2 with hshort | hlong
  · rw [analyze_of_short hshort, legs_of_short hshort]
    rfl
  · rw [analyze_of_long hlong]

/-! ## The description -/

/-- **What the analysis of a track is:** its points with their annotations, and the sums over its
legs. -/
structure Describes (limit : Float) (driverId : String) (points : List TrackPoint)
    (computedAt : Timestamp) (a : TrackAnalysis) : Prop where
  driverId_eq : a.driverId = driverId
  computedAt_eq : a.computedAt = computedAt
  sequence_eq : a.sequence = 0
  length_points : a.points.length = points.length
  /-- No point is exchanged or moved. -/
  fixed : List.Forall₂ (fun q r => r.driverId = q.driverId ∧ r.position = q.position)
    points a.points
  /-- A point some time after the one before it has the verdict on the leg between them, and the
  speed found there. -/
  judged : ∀ i leg q, legTo? points i = some leg → points[i]? = some q →
    a.points[i]? = some { q with speed := leg.speed, analysis := some (leg.verdict limit) }
  /-- All other points are left as they were. -/
  spared : ∀ i, legTo? points i = none → a.points[i]? = points[i]?
  anomalyCount_eq : a.anomalyCount = (legs points).countP fun leg => ¬leg.speed ≤ limit
  anomalyCount_le : a.anomalyCount ≤ points.length - 1
  confidence_eq : 2 ≤ points.length →
    a.confidence = 1 - Float.ofNat a.anomalyCount / Float.ofNat points.length
  maxSpeed_mem : a.maxSpeed = 0 ∨ ∃ leg ∈ legs points, leg.speed ≤ limit ∧ a.maxSpeed = leg.speed
  le_maxSpeed : ∀ leg ∈ legs points, leg.speed ≤ limit → leg.speed ≤ a.maxSpeed
  maxSpeed_nonneg : 0 ≤ a.maxSpeed
  maxSpeed_le : a.maxSpeed = 0 ∨ a.maxSpeed ≤ limit
  averageSpeed_eq : 2 ≤ points.length → a.averageSpeed =
    ((legs points).map Leg.speed).foldl (· + ·) 0 / Float.ofNat (points.length - 1)
  /-- A track without a leg has nothing to report. -/
  short : points.length < 2 → a.points = points ∧ a.averageSpeed = 0 ∧ a.maxSpeed = 0 ∧
    a.confidence = 1 ∧ a.anomalyCount = 0

/-- **An analysis is what the description says,** for every track, limit and time. -/
theorem describes_analyze (limit : Float) (driverId : String) (points : List TrackPoint)
    (computedAt : Timestamp) :
    Describes limit driverId points computedAt (analyze limit driverId points computedAt) := by
  obtain ⟨hmem, hnonneg, hle⟩ := highest_spec limit (legs points)
  rw [← maxSpeed_analyze] at hmem hnonneg hle
  refine
    { driverId_eq := ?driver
      computedAt_eq := ?time
      sequence_eq := ?sequence
      length_points := (forall₂_points_analyzeWith _ limit driverId computedAt).length_eq.symm
      fixed := forall₂_points_analyzeWith _ limit driverId computedAt
      judged := fun i leg q hleg hq => ?judged
      spared := fun i hi => ?spared
      anomalyCount_eq := anomalyCount_eq_countP
      anomalyCount_le := ?count
      confidence_eq := fun hlong => ?confidence
      maxSpeed_mem := hmem
      le_maxSpeed := hle
      maxSpeed_nonneg := hnonneg
      maxSpeed_le := hmem.imp_right fun ⟨leg, _, hplausible, hspeed⟩ => hspeed ▸ hplausible
      averageSpeed_eq := fun hlong => ?average
      short := fun hshort => ?short }
  case driver | time | sequence =>
    unfold analyze analyzeWith
    split <;> rfl
  case judged =>
    rw [getElem?_points_analyze, hleg, hq, ← Leg.speed_verdict]
    rfl
  case spared =>
    rw [getElem?_points_analyze, hi]
    exact Option.map_id'
  case count =>
    rw [anomalyCount_eq_countP]
    exact List.countP_le_length.trans length_legs_le
  case confidence => rw [anomalyCount_eq_countP, analyze_of_long hlong]
  case average => rw [analyze_of_long hlong]
  case short =>
    rw [analyze_of_short hshort]
    exact ⟨rfl, rfl, rfl, rfl, rfl⟩

end Track

end Fleet
