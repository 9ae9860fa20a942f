import Fleet.Proofs.Wire.Finite
import Fleet.Config

/-!
# Analyses are finite

An analysis of finite points has finite numbers only, if the speed limit is above zero and the
metric measures as on the earth (`IsDistance`): see `isFinite_analyzeWith`.  Where a speed exceeds
the limit, the limit is small enough for the estimated location to stay in range.
-/

namespace Fleet

open Rounding

/-! ## Powers of two around a number -/

namespace Rounding

variable {x : Float} {n : Nat}

theorem IsAbove.within (hx : IsAbove x) : Within x (magnitude x) := ⟨hx.isFinite, le_rfl⟩

/-- A float above zero lies between two powers of two that follow each other. -/
theorem exists_between (hx : 0 < magnitude x) (hfinite : x.isFinite = true) :
    ∃ t : Int, -1074 ≤ t ∧ (2 : ℚ) ^ t ≤ magnitude x ∧ Within x (2 ^ (t + 1)) := by
  have hcanonical := (isCanonical_unpack hfinite).1
  rcases isCanonical_cases hcanonical with ⟨s, hzero⟩ | ⟨s, m, e, h, hm⟩
  · rw [magnitude, hzero] at hx
    exact absurd hx (lt_irrefl 0)
  · have hsize : magnitude x = m * 2 ^ e := by
      rw [magnitude, hm]
      rfl
    rw [hm] at hcanonical
    have hleast : -1074 ≤ e := hcanonical.2.1
    refine ⟨m.log2 + e, by omega, ?_, ⟨hfinite, ?_⟩⟩
    · rw [hsize]
      exact two_zpow_log2_le (by omega) e
    · rw [hsize]
      exact (lt_two_zpow_log2 m e).le

/-- A number of things lies between two powers of two that follow each other. -/
theorem exists_between_ofNat (hpos : 0 < n) (hn : n ≤ 2 ^ 64) :
    ∃ s : Nat, s ≤ 64 ∧ (2 : ℚ) ^ (s : ℤ) ≤ magnitude (Float.ofNat n) ∧
      Within (Float.ofNat n) (2 ^ ((s : ℤ) + 1)) := by
  have hrounds := approximates_ofNat hn
  have hlog : n.log2 ≤ 64 := by
    have hlt : n < 2 ^ 65 := hn.trans_lt (by norm_num)
    exact Nat.lt_succ_iff.mp ((Nat.log2_lt (by omega)).mpr hlt)
  refine ⟨n.log2, hlog, hrounds.lower _ (by omega) ?_, hrounds.within (by omega) ?_⟩
  · exact_mod_cast Nat.log2_self_le (by omega)
  · exact_mod_cast Nat.lt_log2_self.le

theorem within_ofNat (hn : n ≤ 2 ^ 64) : Within (Float.ofNat n) (2 ^ (64 : ℤ)) :=
  (approximates_ofNat hn).within (by norm_num) (by exact_mod_cast hn)

theorem one_le_magnitude_ofNat (hpos : 0 < n) (hn : n ≤ 2 ^ 64) :
    1 ≤ magnitude (Float.ofNat n) := by
  have hone : (2 : ℚ) ^ (0 : ℤ) ≤ n := by
    rw [zpow_zero]
    exact_mod_cast hpos
  exact (approximates_ofNat hn).lower 0 (by norm_num) hone

end Rounding

/-- A setting that is valid is a float above zero. -/
theorem Config.isAbove_of_isPositive {x : Float} (h : isPositive x = true) : IsAbove x := by
  simp only [isPositive, Bool.and_eq_true, Bool.not_eq_true', decide_eq_false_iff_not] at h
  exact isAbove_of_not_le h.1 h.2

namespace Track

/-! ## The verdict on an edge -/

theorem millisPerHour_bounds :
    Within millisPerHour (2 ^ (22 : ℤ)) ∧ (2 : ℚ) ^ (21 : ℤ) ≤ magnitude millisPerHour := by
  have hrounds : Approximates millisPerHour ((3600000 : ℕ) : ℚ) :=
    approximates_ofNat (n := 3600000) (by norm_num)
  exact ⟨hrounds.within (by norm_num) (by norm_num), hrounds.lower _ (by norm_num) (by norm_num)⟩

/-- The coordinate a part of the way between two moderate positions. -/
theorem along_isFinite {p q : Position} (hp : p.IsModerate) (hq : q.IsModerate) {part : Float}
    (hpart : Within part (2 ^ (3 : ℤ))) :
    (p.along q part).1.isFinite = true ∧ (p.along q part).2.isFinite = true := by
  have halong {x y : Float} (hx : Within x (2 ^ (64 : ℤ))) (hy : Within y (2 ^ (64 : ℤ))) :
      (x + (y - x) * part).isFinite = true := by
    have hdifference : Within (y - x) (2 ^ (65 : ℤ)) :=
      hy.sub hx (by norm_num) (by norm_num) (by norm_num)
    have hproduct : Within ((y - x) * part) (2 ^ (68 : ℤ)) :=
      hdifference.mul hpart (by norm_num) (by norm_num) (by norm_num)
    exact (hx.add hproduct (j := 69) (by norm_num) (by norm_num) (by norm_num)).isFinite
  exact ⟨halong hp.latitude hq.latitude, halong hp.longitude hq.longitude⟩

/-- The speed along an edge. -/
theorem within_speed {distance elapsed : Float} {t s j : Int} (hlow : -1074 ≤ t) (hhigh : t ≤ 16)
    (hdistance : Within distance (2 ^ t)) (helapsed : elapsed.isFinite = true)
    (hs : (2 : ℚ) ^ s ≤ magnitude elapsed) (hj : t + 22 - s ≤ j) (hj₁ : -1074 ≤ j)
    (hj₂ : j ≤ 1023) : Within (distance * millisPerHour / elapsed) (2 ^ j) := by
  have hproduct : Within (distance * millisPerHour) (2 ^ (t + 22)) :=
    hdistance.mul millisPerHour_bounds.1 (by omega) (by omega) (zpow_add₀ two_ne_zero t 22).ge
  refine hproduct.div helapsed (zpow_pos two_pos s) hs hj₁ hj₂ ?_
  rw [← zpow_add₀ two_ne_zero]
  exact zpow_le_zpow_right₀ one_le_two (by omega)

/-- **Where a speed exceeds the limit,** the part of the way that the limit allows is in range. -/
theorem within_part {limit distance elapsed : Float} {s : Nat} (hlimit : IsAbove limit)
    (hdistance : Within distance (2 ^ (15 : ℤ))) (hs : s ≤ 64)
    (hlower : (2 : ℚ) ^ (s : ℤ) ≤ magnitude elapsed)
    (hupper : Within elapsed (2 ^ ((s : ℤ) + 1)))
    (hfast : magnitude limit < magnitude (distance * millisPerHour / elapsed)) :
    Within (limit * elapsed / millisPerHour / distance) (2 ^ (3 : ℤ)) := by
  have hleast := hlimit.le_magnitude
  -- a distance of zero is covered at no speed
  have hpos : 0 < magnitude distance := by
    by_contra hzero
    have hnone : Within distance 0 := ⟨hdistance.isFinite, not_lt.mp hzero⟩
    have hproduct : Within (distance * millisPerHour) (2 ^ (-1074 : ℤ)) :=
      hnone.mul millisPerHour_bounds.1 le_rfl (by norm_num) (by
        rw [zero_mul]
        exact (zpow_pos two_pos _).le)
    have hspeed : Within (distance * millisPerHour / elapsed) (2 ^ (-1074 : ℤ)) := by
      refine hproduct.div hupper.isFinite (zpow_pos two_pos _) hlower le_rfl (by norm_num) ?_
      exact le_mul_of_one_le_right (zpow_pos two_pos _).le
        (one_le_zpow₀ one_le_two (Int.natCast_nonneg s))
    exact absurd (hfast.trans_le hspeed.magnitude_le) (not_lt.mpr hleast)
  obtain ⟨t, ht, hbelow, habove⟩ := exists_between hpos hdistance.isFinite
  have ht15 : t ≤ 15 :=
    (zpow_le_zpow_iff_right₀ one_lt_two).mp (hbelow.trans hdistance.magnitude_le)
  -- the limit is below the speed, and the speed is not below the smallest float
  have hexponent : -1074 ≤ t + 23 - s := by
    by_contra htiny
    have hspeed := within_speed (j := -1074) (by omega) (by omega) habove hupper.isFinite hlower
      (by omega) le_rfl (by norm_num)
    exact absurd (hfast.trans_le hspeed.magnitude_le) (not_lt.mpr hleast)
  have hspeed := within_speed (j := t + 23 - s) (by omega) (by omega) habove hupper.isFinite
    hlower (by omega) hexponent (by omega)
  have hbound : Within limit (2 ^ (t + 23 - s)) :=
    ⟨hlimit.isFinite, hfast.le.trans hspeed.magnitude_le⟩
  have hproduct : Within (limit * elapsed) (2 ^ (t + 24)) := by
    refine hbound.mul hupper (by omega) (by omega) ?_
    rw [← zpow_add₀ two_ne_zero]
    exact zpow_le_zpow_right₀ one_le_two (by omega)
  have hreachable : Within (limit * elapsed / millisPerHour) (2 ^ (t + 3)) := by
    refine hproduct.div millisPerHour_bounds.1.isFinite (zpow_pos two_pos 21)
      millisPerHour_bounds.2 (by omega) (by omega) ?_
    rw [← zpow_add₀ two_ne_zero]
    exact zpow_le_zpow_right₀ one_le_two (by omega)
  refine hreachable.div hdistance.isFinite (zpow_pos two_pos t) hbelow (by norm_num)
    (by norm_num) ?_
  rw [← zpow_add₀ two_ne_zero]
  exact zpow_le_zpow_right₀ one_le_two (by omega)

/-- **The verdict on an edge is finite.** -/
theorem isFinite_assess {limit distance : Float} {n : Nat} {p q : Position}
    (hlimit : IsAbove limit) (hdistance : Within distance (2 ^ (15 : ℤ))) (hpos : 0 < n)
    (hn : n ≤ 2 ^ 64) (hp : p.IsModerate) (hq : q.IsModerate) :
    (assess limit distance (Float.ofNat n) p q).IsFinite ∧
      Within (assess limit distance (Float.ofNat n) p q).speed (2 ^ (37 : ℤ)) := by
  obtain ⟨s, hs, hlower, hupper⟩ := exists_between_ofNat hpos hn
  have hspeed : Within (distance * millisPerHour / Float.ofNat n) (2 ^ (37 : ℤ)) :=
    within_speed (by norm_num) (by norm_num) hdistance hupper.isFinite hlower (by omega)
      (by norm_num) (by norm_num)
  unfold assess
  dsimp only
  split
  · have hone : (1 : Float).isFinite = true := rfl
    exact ⟨⟨hspeed.isFinite, hone, fun _ h => nomatch h⟩, hspeed⟩
  · rename_i hfast
    obtain ⟨habove, hless⟩ := hlimit.of_not_le hspeed.isFinite hfast
    have hconfidence : Within (limit / (distance * millisPerHour / Float.ofNat n)) (2 ^ (0 : ℤ)) :=
      hlimit.within.div hspeed.isFinite habove.magnitude_pos le_rfl (by norm_num) (by norm_num)
        (by rw [zpow_zero, one_mul]; exact hless.le)
    obtain ⟨hlatitude, hlongitude⟩ := along_isFinite hp hq
      (within_part hlimit hdistance hs hlower hupper hless)
    refine ⟨⟨hspeed.isFinite, hconfidence.isFinite, ?_⟩, hspeed⟩
    rintro location heq
    cases heq
    exact ⟨hlatitude, hlongitude⟩

/-! ## The analysis of a track -/

theorem mem_zipWith {α β γ : Type} {f : α → β → γ} {l : List α} {l' : List β} {c : γ}
    (h : c ∈ List.zipWith f l l') : ∃ a ∈ l, ∃ b ∈ l', f a b = c := by
  rw [← List.map_uncurry_zip_eq_zipWith] at h
  obtain ⟨⟨a, b⟩, hab, rfl⟩ := List.mem_map.mp h
  obtain ⟨ha, hb⟩ := List.of_mem_zip hab
  exact ⟨a, ha, b, hb, rfl⟩

theorem elapsedMillis_le (p q : Position) : elapsedMillis p q ≤ 2 ^ 64 := by
  have hlow := Int64.le_toInt (Timestamp.since q.observedAt p.observedAt)
  have hhigh := Int64.toInt_lt (Timestamp.since q.observedAt p.observedAt)
  rw [elapsedMillis]
  omega

/-- **A distance on the earth** in kilometres: at most half its circumference. -/
structure IsDistance (x : Float) : Prop where
  isFinite : x.isFinite = true
  nonneg : 0 ≤ x
  le_half : x ≤ 20016

theorem IsDistance.within {x : Float} (h : IsDistance x) : Within x (2 ^ (15 : ℤ)) := by
  have hzero : Within 0 (2 ^ (15 : ℤ)) :=
    (approximates_ofNat (n := 0) (by norm_num)).within (by norm_num) (by norm_num)
  have hhalf : Within 20016 (2 ^ (15 : ℤ)) :=
    (approximates_ofNat (n := 20016) (by norm_num)).within (by norm_num) (by norm_num)
  exact ⟨h.isFinite, magnitude_le_of_between h.isFinite hzero hhalf h.nonneg h.le_half⟩

/-- **Points that are analyzed in finite numbers:** they are finite themselves, and where time
passes from one to another, their distance is one on the earth. -/
structure IsSound (metric : Metric) (points : List TrackPoint) : Prop where
  isFinite : ∀ r ∈ points, r.IsFinite
  isModerate : ∀ r ∈ points, r.position.IsModerate
  isDistance : ∀ r ∈ points, ∀ r' ∈ points, elapsedMillis r.position r'.position ≠ 0 →
    IsDistance (metric r.position r'.position)

variable {metric : Metric} {limit : Float} {points : List TrackPoint}

theorem IsSound.edge? (h : IsSound metric points) (hlimit : IsAbove limit) {r r' : TrackPoint}
    (hr : r ∈ points) (hr' : r' ∈ points) {e : EdgeAnalysis}
    (he : edge? metric limit r r' = some e) : e.IsFinite ∧ Within e.speed (2 ^ (37 : ℤ)) := by
  unfold Track.edge? at he
  dsimp only at he
  split at he
  · cases he
  · rename_i htime
    cases he
    exact isFinite_assess hlimit (h.isDistance r hr r' hr' htime).within (Nat.pos_of_ne_zero htime)
      (elapsedMillis_le _ _) (h.isModerate r hr) (h.isModerate r' hr')

theorem IsSound.verdict (h : IsSound metric points) (hlimit : IsAbove limit) {e : EdgeAnalysis}
    (he : some e ∈ edges metric limit points) : e.IsFinite ∧ Within e.speed (2 ^ (37 : ℤ)) := by
  obtain ⟨r, hr, r', hr', hedge⟩ := mem_zipWith he
  exact h.edge? hlimit hr (List.mem_of_mem_drop hr') hedge

theorem IsSound.annotated (h : IsSound metric points) (hlimit : IsAbove limit) :
    ∀ q ∈ annotated metric limit points, q.IsFinite := by
  intro q hq
  rcases List.mem_append.mp hq with hq | hq
  · exact h.isFinite q (List.mem_of_mem_take hq)
  · obtain ⟨r, hr, verdict, hverdict, rfl⟩ := mem_zipWith hq
    have hpoint := h.isFinite r (List.mem_of_mem_drop hr)
    cases verdict with
    | none => exact hpoint
    | some e =>
      have hfinite := (h.verdict hlimit hverdict).1
      refine ⟨hpoint.position, hfinite.speed, ?_⟩
      rintro e' heq
      obtain rfl := Option.some.inj heq
      exact hfinite

/-- A sum of speeds does not grow without bound, however many they are. -/
theorem within_totalSpeed {verdicts : List EdgeAnalysis}
    (h : ∀ e ∈ verdicts, Within e.speed (2 ^ (37 : ℤ))) :
    Within (totalSpeed verdicts) (2 ^ (91 : ℤ)) := by
  have hsum (total : Float) (htotal : Within total (2 ^ (91 : ℤ))) :
      Within (verdicts.foldl (fun total edge => total + edge.speed) total) (2 ^ (91 : ℤ)) := by
    induction verdicts generalizing total with
    | nil => exact htotal
    | cons e verdicts ih =>
      exact ih (fun e he => h e (List.mem_cons_of_mem _ he)) _
        (htotal.add_small (h e List.mem_cons_self) (by norm_num) (by norm_num))
  have hzero : Within 0 (2 ^ (64 : ℤ)) := within_ofNat (n := 0) (Nat.zero_le _)
  exact hsum 0 (hzero.mono (zpow_le_zpow_right₀ one_le_two (by norm_num)))

theorem isFinite_maxPlausibleSpeed {verdicts : List EdgeAnalysis}
    (h : ∀ e ∈ verdicts, e.speed.isFinite = true) :
    (maxPlausibleSpeed verdicts).isFinite = true := by
  have hregular : ∀ e ∈ verdicts.filter fun edge => !edge.isAnomaly,
      e.speed.isFinite = true := fun e he => h e (List.mem_of_mem_filter he)
  have hmax (highest : Float) (hhighest : highest.isFinite = true) :
      ((verdicts.filter fun edge => !edge.isAnomaly).foldl
        (fun highest edge => if highest < edge.speed then edge.speed else highest)
        highest).isFinite = true := by
    generalize verdicts.filter (fun edge => !edge.isAnomaly) = regular at hregular
    induction regular generalizing highest with
    | nil => exact hhighest
    | cons e regular ih =>
      refine ih _ ?_ fun e he => hregular e (List.mem_cons_of_mem _ he)
      dsimp only
      split
      · exact hregular e List.mem_cons_self
      · exact hhighest
  exact hmax 0 rfl

/-- **An analysis of sound points is finite.** -/
theorem isFinite_analyzeWith (h : IsSound metric points) (hlimit : IsAbove limit)
    (hlength : points.length ≤ 2 ^ 64) (driverId : String) (computedAt : Timestamp) :
    (analyzeWith metric limit driverId points computedAt).IsFinite := by
  unfold analyzeWith
  split
  · exact TrackAnalysis.isFinite_insufficient h.isFinite
  rename_i hlong
  have hverdicts : ∀ e ∈ (edges metric limit points).filterMap id,
      e.IsFinite ∧ Within e.speed (2 ^ (37 : ℤ)) := by
    intro e he
    obtain ⟨verdict, hverdict, heq⟩ := List.mem_filterMap.mp he
    obtain rfl : verdict = some e := heq
    exact h.verdict hlimit hverdict
  have hanomalies : anomalies ((edges metric limit points).filterMap id) ≤ 2 ^ 64 :=
    (anomalies_le metric limit points).trans hlength
  have hpart : Within (Float.ofNat (anomalies ((edges metric limit points).filterMap id)) /
      Float.ofNat points.length) (2 ^ (64 : ℤ)) :=
    (within_ofNat hanomalies).div (within_ofNat hlength).isFinite one_pos
      (one_le_magnitude_ofNat (by omega) hlength) (by norm_num) (by norm_num) (mul_one _).ge
  have hone : Within 1 (2 ^ (64 : ℤ)) := within_ofNat (n := 1) (by norm_num)
  have htotal := within_totalSpeed fun e he => (hverdicts e he).2
  have hedges : points.length - 1 ≤ 2 ^ 64 := (Nat.sub_le _ _).trans hlength
  exact
    { points := h.annotated hlimit
      averageSpeed := (htotal.div (within_ofNat hedges).isFinite one_pos
        (one_le_magnitude_ofNat (by omega) hedges) (by norm_num) (by norm_num)
        (mul_one _).ge).isFinite
      maxSpeed := isFinite_maxPlausibleSpeed fun e he => (hverdicts e he).1.speed
      confidence := (hone.sub hpart (j := 65) (by norm_num) (by norm_num) (by norm_num)).isFinite }

end Track
end Fleet
