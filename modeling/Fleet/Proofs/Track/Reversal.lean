import Mathlib
import Fleet.Proofs.Track.Specification

/-!
# Tracks read backwards

A track and its reverse have the same legs, each turned round and in the opposite order
(`legs_reverse`).  The time on a leg is held at the ends of its range, which are not equally far
from zero, but they are the same float (`Leg.ofNat_natAbs_delta_reverse`).  So if distances do not
depend on the direction, no speed does, and what is said of the speeds alone stays as it is.
-/

namespace Fleet

namespace Comparison

/-- **Numbers that are at most each other are the same,** unless they are zeros. -/
theorem eq_of_le_of_le {x y : Float} (hxy : x ≤ y) (hyx : y ≤ x) (hpos : 0 < x) : x = y := by
  obtain ⟨hx, hy⟩ := isNaN_of_le hxy
  have hzero : (0 : Float).isNaN = false := rfl
  have hplace : place x.toModel.unpack = place y.toModel.unpack :=
    le_antisymm ((le_iff_place hx hy).mp hxy) ((le_iff_place hy hx).mp hyx)
  have hcompare : x.toModel.unpack.compare y.toModel.unpack = some .eq := by
    rw [compare_eq_place hx hy, hplace, compare_eq_iff_eq.mpr rfl]
  have hequal : (x == y) = true := by
    show (x.toModel.unpack.compare y.toModel.unpack == some .eq) = true
    rw [hcompare]
    rfl
  rw [lt_iff_place hzero hx] at hpos
  obtain ⟨-, -, rfl | ⟨rfl, -⟩ | ⟨rfl, -⟩⟩ := Float.beq_iff_ne_nan_and_eq.mp hequal
  · rfl
  -- neither zero is above zero
  · exact absurd hpos (lt_irrefl _)
  · exact absurd hpos (lt_irrefl _)

end Comparison

namespace Track

variable {limit : Float} {points : List TrackPoint}

/-! ## Legs turned round -/

namespace Leg

/-- The leg in the other direction. -/
def reverse (leg : Leg) : Leg := ⟨leg.current, leg.previous⟩

/-- Whether a leg is as long in one direction as in the other. -/
def IsEven (leg : Leg) : Prop :=
  leg.previous.distanceKm leg.current = leg.current.distanceKm leg.previous

variable {leg : Leg}

/-- The time on a leg is held at the ends of the range of 64 bits. -/
theorem toInt_delta (leg : Leg) : leg.delta.toInt = max (-2 ^ 63)
    (min (leg.current.observedAt.toInt - leg.previous.observedAt.toInt) (2 ^ 63 - 1)) :=
  toInt_ofIntClamp _

theorem delta_eq_zero_iff :
    leg.delta = 0 ↔ leg.previous.observedAt = leg.current.observedAt := by
  have hzero : (0 : Int64).toInt = 0 := rfl
  rw [← Int64.toInt_inj, ← Int64.toInt_inj, toInt_delta, hzero]
  omega

theorem delta_reverse_eq_zero : leg.reverse.delta = 0 ↔ leg.delta = 0 := by
  rw [delta_eq_zero_iff, delta_eq_zero_iff, eq_comm, reverse]

/-- The two ends of the range of times, as numbers of milliseconds. -/
theorem ofNat_longest : Float.ofNat (2 ^ 63 - 1) = Float.ofNat (2 ^ 63) := by decide +kernel

/-- **A leg takes the same time in both directions,** as a float.  If the time is held at the ends
of its range, it is `2 ^ 63` in one direction and one less in the other, which is rounded up. -/
theorem ofNat_natAbs_delta_reverse (leg : Leg) :
    Float.ofNat leg.reverse.delta.toInt.natAbs = Float.ofNat leg.delta.toInt.natAbs := by
  have hcases : leg.reverse.delta.toInt.natAbs = leg.delta.toInt.natAbs ∨
      leg.reverse.delta.toInt.natAbs = 2 ^ 63 - 1 ∧ leg.delta.toInt.natAbs = 2 ^ 63 ∨
      leg.reverse.delta.toInt.natAbs = 2 ^ 63 ∧ leg.delta.toInt.natAbs = 2 ^ 63 - 1 := by
    rw [toInt_delta, toInt_delta]
    dsimp only [reverse]
    omega
  rcases hcases with hsame | ⟨hthere, hback⟩ | ⟨hthere, hback⟩
  · rw [hsame]
  · rw [hthere, hback, ofNat_longest]
  · rw [hthere, hback, ofNat_longest]

theorem speed_reverse (heven : leg.IsEven) : leg.reverse.speed = leg.speed := by
  rw [speed, speed, ofNat_natAbs_delta_reverse]
  exact congrArg (· * millisPerHour / Float.ofNat leg.delta.toInt.natAbs) heven.symm

/-- **The verdict on a leg turned round** differs in the estimated location alone. -/
theorem verdict_reverse (heven : leg.IsEven) :
    (leg.reverse.verdict limit).speed = (leg.verdict limit).speed ∧
      (leg.reverse.verdict limit).confidence = (leg.verdict limit).confidence ∧
      (leg.reverse.verdict limit).isAnomaly = (leg.verdict limit).isAnomaly := by
  rw [speed_verdict, speed_verdict, confidence_verdict, confidence_verdict, isAnomaly_verdict,
    isAnomaly_verdict, speed_reverse heven]
  exact ⟨rfl, rfl, rfl⟩

end Leg

/-! ## The legs of a track turned round -/

/-- **The leg to a point, turned round, leads to the point before it.** -/
theorem legTo?_reverse {i : Nat} (hi : i + 1 < points.length) :
    legTo? points.reverse (points.length - 1 - i) = (legTo? points (i + 1)).map Leg.reverse := by
  obtain ⟨j, hj⟩ : ∃ j, points.length - 1 - i = j + 1 := ⟨points.length - 2 - i, by omega⟩
  have hplaces : points.length - 1 - j = i + 1 ∧ points.length - 1 - (j + 1) = i := by omega
  have hfrom : points.reverse[j]? = points[i + 1]? := by
    rw [List.getElem?_reverse (by omega), hplaces.1]
  have hto : points.reverse[j + 1]? = points[i]? := by
    rw [List.getElem?_reverse (by omega), hplaces.2]
  rw [hj, legTo?, legTo?, hfrom, hto, List.getElem?_eq_getElem hi,
    List.getElem?_eq_getElem (Nat.lt_of_succ_lt hi)]
  simp only [Option.bind_eq_bind, Option.bind_some]
  have hdelta : (Leg.mk points[i].position points[i + 1].position).reverse.delta = 0 ↔
      (Leg.mk points[i].position points[i + 1].position).delta = 0 := Leg.delta_reverse_eq_zero
  by_cases hzero : Leg.delta ⟨points[i].position, points[i + 1].position⟩ = 0
  · rw [if_pos hzero]
    exact if_pos (hdelta.mpr hzero)
  · rw [if_neg hzero]
    exact if_neg (mt hdelta.mp hzero)

/-- **The legs of a track read backwards** are its legs turned round, the last one first. -/
theorem legs_reverse : legs points.reverse = ((legs points).map Leg.reverse).reverse := by
  have hplaces : (List.range (points.length - 1)).reverse =
      (List.range (points.length - 1)).map fun j => points.length - 1 - 1 - j := by
    rw [List.range_eq_range', List.reverse_range', ← List.range_eq_range']
    simp only [Nat.zero_add]
  rw [legs_eq, legs_eq, List.map_filterMap, ← List.filterMap_reverse, hplaces, List.length_reverse,
    List.filterMap_map]
  apply List.filterMap_congr
  intro j hj
  have hlt : j < points.length - 1 := List.mem_range.mp hj
  have hplace : points.length - 1 - (points.length - 1 - 1 - j) = j + 1 := by omega
  rw [← hplace, legTo?_reverse (by omega)]
  rfl

/-! ## The highest speed of legs in any order -/

/-- The highest of some numbers exceeds the one that is given, unless it is that one. -/
theorem eq_or_lt_foldl_larger {speeds : List Float} (hspeeds : ∀ s ∈ speeds, s.isNaN = false)
    {highest : Float} (hhighest : highest.isNaN = false) :
    speeds.foldl larger highest = highest ∨ highest < speeds.foldl larger highest := by
  induction speeds generalizing highest with
  | nil => exact .inl rfl
  | cons s speeds ih =>
    obtain ⟨hs, hspeeds⟩ := List.forall_mem_cons.mp hspeeds
    rw [List.foldl_cons]
    by_cases hlt : highest < s
    · have hstep : larger highest s = s := if_pos hlt
      have hnumber := (Comparison.isNaN_of_le (foldl_larger hspeeds hs).2.1).2
      rw [hstep]
      refine .inr ?_
      rcases ih hspeeds hs with hsame | hmore
      · rwa [hsame]
      · exact Comparison.lt_trans hhighest hs hnumber hlt hmore
    · have hstep : larger highest s = highest := if_neg hlt
      rw [hstep]
      exact ih hspeeds hhighest

/-- **The highest of some numbers does not depend on their order,** down to the last bit. -/
theorem foldl_larger_perm {speeds speeds' : List Float} (hperm : speeds.Perm speeds')
    (hspeeds : ∀ s ∈ speeds, s.isNaN = false) :
    speeds.foldl larger 0 = speeds'.foldl larger 0 := by
  have hspeeds' : ∀ s ∈ speeds', s.isNaN = false := fun s hs => hspeeds s (hperm.mem_iff.mpr hs)
  have hzero : (0 : Float).isNaN = false := rfl
  obtain ⟨hmem, hnonneg, hle⟩ := foldl_larger hspeeds hzero
  obtain ⟨hmem', hnonneg', hle'⟩ := foldl_larger hspeeds' hzero
  -- each of the two is zero or one of the numbers, and so at most the other
  have hfirst : speeds.foldl larger 0 ≤ speeds'.foldl larger 0 := by
    rcases hmem with hmem | hmem
    · rwa [hmem]
    · exact hle' _ (hperm.mem_iff.mp hmem)
  have hsecond : speeds'.foldl larger 0 ≤ speeds.foldl larger 0 := by
    rcases hmem' with hmem' | hmem'
    · rwa [hmem']
    · exact hle _ (hperm.mem_iff.mpr hmem')
  rcases eq_or_lt_foldl_larger hspeeds hzero with hsame | hpos
  · rcases eq_or_lt_foldl_larger hspeeds' hzero with hsame' | hpos'
    · rw [hsame, hsame']
    · exact (Comparison.eq_of_le_of_le hsecond hfirst hpos').symm
  · exact Comparison.eq_of_le_of_le hfirst hsecond hpos

theorem highest_eq_foldl (limit : Float) (legs : List Leg) : highest limit legs =
    ((legs.map Leg.speed).filter fun s => s ≤ limit).foldl larger 0 := by
  rw [highest, List.filter_map]
  rfl

/-- **The highest speed of legs** depends on their speeds alone and not on the order. -/
theorem highest_eq_of_perm {legs legs' : List Leg}
    (hperm : (legs.map Leg.speed).Perm (legs'.map Leg.speed)) :
    highest limit legs = highest limit legs' := by
  rw [highest_eq_foldl, highest_eq_foldl]
  refine foldl_larger_perm (hperm.filter _) fun s hs => ?_
  exact (Comparison.isNaN_of_le (of_decide_eq_true (List.mem_filter.mp hs).2)).1

/-! ## Analyses of a track and of its reverse -/

/-- Whether neighbouring points of a track are as far from each other in both directions. -/
def IsEven (points : List TrackPoint) : Prop :=
  points.IsChain fun q r => q.position.distanceKm r.position = r.position.distanceKm q.position

theorem IsEven.leg (heven : IsEven points) {i : Nat} {q r : TrackPoint} (hq : points[i]? = some q)
    (hr : points[i + 1]? = some r) : Leg.IsEven ⟨q.position, r.position⟩ := by
  obtain ⟨hi, rfl⟩ := List.getElem?_eq_some_iff.mp hr
  obtain ⟨-, rfl⟩ := List.getElem?_eq_some_iff.mp hq
  exact List.isChain_iff_getElem.mp heven i hi

theorem IsEven.of_mem_legs (heven : IsEven points) {leg : Leg} (hleg : leg ∈ legs points) :
    leg.IsEven := by
  rw [legs_eq] at hleg
  obtain ⟨i, -, hleg⟩ := List.mem_filterMap.mp hleg
  obtain ⟨q, hq, hleg⟩ := Option.bind_eq_some_iff.mp hleg
  obtain ⟨r, hr, hleg⟩ := Option.bind_eq_some_iff.mp hleg
  dsimp only at hleg
  split at hleg
  · cases hleg
  · cases hleg
    exact heven.leg hq hr

/-- The speeds of a track read backwards are its speeds, the last one first. -/
theorem IsEven.map_speed_legs_reverse (heven : IsEven points) :
    (legs points.reverse).map Leg.speed = ((legs points).map Leg.speed).reverse := by
  have hspeeds : (legs points).map (Leg.speed ∘ Leg.reverse) = (legs points).map Leg.speed :=
    List.map_congr_left fun leg hleg => Leg.speed_reverse (heven.of_mem_legs hleg)
  rw [legs_reverse, List.map_reverse, List.map_map, hspeeds]

/-- What is counted of the speeds is the same in both directions. -/
theorem IsEven.anomalyCount_reverse (heven : IsEven points) (driverId driverId' : String)
    (computedAt computedAt' : Timestamp) :
    (analyze limit driverId' points.reverse computedAt').anomalyCount =
      (analyze limit driverId points computedAt).anomalyCount := by
  have hcount (points : List TrackPoint) : (legs points).countP (fun leg => ¬leg.speed ≤ limit) =
      ((legs points).map Leg.speed).countP fun s => ¬s ≤ limit := by
    rw [List.countP_map]
    rfl
  rw [anomalyCount_eq_countP, anomalyCount_eq_countP, hcount, hcount,
    heven.map_speed_legs_reverse, List.countP_reverse]

/-- **An analysis does not depend on the direction of time.**  If distances between neighbouring
points do not depend on the direction, a track and its reverse have as many anomalies, the same
confidence and the same highest speed.  Two neighbouring points at different times, differences that
exceed 64 bits included, have the same speed, confidence and flag between them in both analyses, on
the later point in the one and on the earlier point in the other; points at the same time are left
as they were in both. -/
theorem analyze_reverse (limit : Float) (points : List TrackPoint)
    (driverId driverId' : String) (computedAt computedAt' : Timestamp) (heven : IsEven points) :
    let onward := analyze limit driverId points computedAt
    let back := analyze limit driverId' points.reverse computedAt'
    back.anomalyCount = onward.anomalyCount ∧ back.confidence = onward.confidence ∧
    back.maxSpeed = onward.maxSpeed ∧
    ∀ i q r, points[i]? = some q → points[i + 1]? = some r →
      if q.position.observedAt = r.position.observedAt then
        onward.points[i + 1]? = some r ∧ back.points[points.length - 1 - i]? = some q
      else
        ∃ e e' : EdgeAnalysis,
          onward.points[i + 1]? = some { r with speed := e.speed, analysis := some e } ∧
          back.points[points.length - 1 - i]? =
            some { q with speed := e'.speed, analysis := some e' } ∧
          e'.speed = e.speed ∧ e'.confidence = e.confidence ∧ e'.isAnomaly = e.isAnomaly := by
  intro onward back
  have honward := describes_analyze limit driverId points computedAt
  have hback := describes_analyze limit driverId' points.reverse computedAt'
  have hcount : back.anomalyCount = onward.anomalyCount := heven.anomalyCount_reverse _ _ _ _
  refine ⟨hcount, ?confidence, ?highest, fun i q r hq hr => ?edge⟩
  case confidence =>
    rcases Nat.lt_or_ge points.length 2 with hshort | hlong
    · obtain ⟨-, -, -, hone, -⟩ := honward.short hshort
      obtain ⟨-, -, -, hone', -⟩ := hback.short (List.length_reverse.trans_lt hshort)
      exact hone'.trans hone.symm
    · have hlong' : 2 ≤ points.reverse.length := hlong.trans_eq List.length_reverse.symm
      rw [honward.confidence_eq hlong, hback.confidence_eq hlong', List.length_reverse]
      show 1 - Float.ofNat back.anomalyCount / _ = _
      rw [hcount]
  case highest =>
    show (analyze _ _ _ _).maxSpeed = (analyze _ _ _ _).maxSpeed
    rw [maxSpeed_analyze, maxSpeed_analyze]
    apply highest_eq_of_perm
    rw [heven.map_speed_legs_reverse]
    exact List.reverse_perm _
  case edge =>
    obtain ⟨hi, -⟩ := List.getElem?_eq_some_iff.mp hr
    have hq' : points.reverse[points.length - 1 - i]? = some q := by
      have hplace : points.length - 1 - (points.length - 1 - i) = i := by omega
      rw [List.getElem?_reverse (by omega), hplace, hq]
    have hleg' := legTo?_reverse hi
    have hzero : (Leg.mk q.position r.position).delta = 0 ↔
        q.position.observedAt = r.position.observedAt := Leg.delta_eq_zero_iff
    split
    · rename_i htime
      have hleg : legTo? points (i + 1) = none := by
        rw [legTo?, hq, hr]
        exact if_pos (hzero.mpr htime)
      rw [hleg] at hleg'
      exact ⟨(honward.spared _ hleg).trans hr, (hback.spared _ hleg').trans hq'⟩
    · rename_i htime
      have hleg := legTo?_succ hq hr (mt hzero.mp htime)
      rw [hleg] at hleg'
      have honward := honward.judged _ _ r hleg hr
      have hback := hback.judged _ _ q hleg' hq'
      rw [← Leg.speed_verdict] at honward hback
      exact ⟨_, _, honward, hback, Leg.verdict_reverse (heven.leg hq hr)⟩

/-- A driver who stays at one place reports it at the first moment there is, at the last one, and
twice half a minute after midnight. -/
theorem analyze_reverse_of_standstill :
    let fix (observedAt : Timestamp) : TrackPoint :=
      { driverId := "a", position := ⟨10, 20, observedAt⟩ }
    let track := [fix Int64.minValue, fix Int64.maxValue, fix 30000, fix 30000]
    let onward := analyze 200 "a" track 0
    let back := analyze 200 "a" track.reverse 0
    IsEven track ∧ back.maxSpeed = onward.maxSpeed ∧
      back.points[0]? = some (fix 30000) ∧ back.points[1]? = some (fix 30000) ∧
      ∃ e e' : EdgeAnalysis, onward.points[1]?.bind (·.analysis) = some e ∧
        back.points[3]?.bind (·.analysis) = some e' ∧ e'.speed = e.speed := by
  intro fix track onward back
  have heven : IsEven track := by
    simp only [IsEven, track, List.isChain_cons_cons, List.isChain_singleton, and_true]
    exact ⟨rfl, rfl⟩
  obtain ⟨-, -, hhighest, hedges⟩ := analyze_reverse 200 track "a" "a" 0 0 heven
  have hfirst := hedges 0 (fix Int64.minValue) (fix Int64.maxValue) rfl rfl
  have hlast := hedges 2 (fix 30000) (fix 30000) rfl rfl
  rw [if_neg (by decide)] at hfirst
  rw [if_pos rfl] at hlast
  obtain ⟨e, e', honward, hback, hspeed, -⟩ := hfirst
  have honward' : onward.points[1]? = _ := honward
  have hback' : back.points[3]? = _ := hback
  refine ⟨heven, hhighest, rfl, hlast.2, e, e', ?_, ?_, hspeed⟩
  · rw [honward']
    rfl
  · rw [hback']
    rfl

end Track
end Fleet
