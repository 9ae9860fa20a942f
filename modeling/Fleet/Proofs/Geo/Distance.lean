import Fleet.Proofs.Number.Monotone
import Fleet.Proofs.Track.Finite

/-!
# Distances on the globe

The haversine formula gives a distance on the earth, whatever library the functions of angles come
from, as long as they stay within their ranges (`Trigonometry.IsBounded`).  The square of half the
chord is held between zero and one before roots are taken of it and of what is left to one, so both
roots exist and one of them is above zero: see `isDistance_haversineKm`.
-/

namespace Fleet

open Rounding

/-! ## Numbers of the formula -/

namespace Geo

/-- π, and half of it, which is as exact. -/
theorem value_pi : value pi = 7074237752028440 / 2 ^ 51 ∧ value (pi / 2) = value pi / 2 := by
  have hpi : Binary64.ofFloat pi = .finite false 7074237752028440 (-51) := rfl
  have hhalf : Binary64.ofFloat (pi / 2) = .finite false 7074237752028440 (-52) := rfl
  rw [value, value, hpi, hhalf]
  norm_num [Binary64.value]

theorem value_earthRadiusKm : value earthRadiusKm = 6371 := by
  have hbits : Binary64.ofFloat earthRadiusKm = .finite false (6371 * 2 ^ 40) (-40) := rfl
  rw [value, hbits]
  norm_num [Binary64.value]

/-- Half the circumference of the earth, rounded up to whole kilometres. -/
theorem value_halfCircle : value 20016 = 20016 := by
  have hbits : Binary64.ofFloat 20016 = .finite false (20016 * 2 ^ 38) (-38) := rfl
  rw [value, hbits]
  norm_num [Binary64.value]

theorem within_radians {degrees : Float} (h : Within degrees (2 ^ (65 : ℤ))) :
    Within (radians degrees) (2 ^ (65 : ℤ)) := by
  have hzero : Within 0 (2 ^ (0 : ℤ)) :=
    (approximates_ofNat (n := 0) (by norm_num)).within (by norm_num) (by norm_num)
  have hone : Within 1 (2 ^ (0 : ℤ)) :=
    (approximates_ofNat (n := 1) (by norm_num)).within (by norm_num) (by norm_num)
  have hfinite : (pi / 180).isFinite = true := rfl
  have hdegree : Within (pi / 180) (2 ^ (0 : ℤ)) :=
    ⟨hfinite, magnitude_le_of_between hfinite hzero hone (by decide) (by decide)⟩
  exact h.mul hdegree (by norm_num) (by norm_num) (by norm_num)

theorem isFinite_half {x : Float} (h : Within x (2 ^ (65 : ℤ))) : (x / 2).isFinite = true := by
  have htwo : (1 : ℚ) ≤ magnitude 2 := one_le_magnitude_ofNat (n := 2) (by norm_num) (by norm_num)
  exact (h.div (j := 65) rfl one_pos htwo (by norm_num) (by norm_num) (by norm_num)).isFinite

/-- **What is held between two numbers** lies between them, unless it is none. -/
theorem clamp_between {low high x : Float} (h : low ≤ high) (hx : x.isFinite = true) :
    low ≤ clamp low high x ∧ clamp low high x ≤ high := by
  have hnumber := isNaN_of_isFinite hx
  obtain ⟨hlow, hhigh⟩ := Comparison.isNaN_of_le h
  unfold clamp
  split
  · exact ⟨Comparison.le_self hlow, h⟩
  · rename_i hbelow
    split
    · exact ⟨h, Comparison.le_self hhigh⟩
    · rename_i habove
      exact ⟨(Comparison.not_lt_iff hnumber hlow).mp hbelow,
        (Comparison.not_lt_iff hhigh hnumber).mp habove⟩

end Geo

/-! ## Functions of angles -/

namespace Trigonometry

/-- **Functions of angles that stay within their ranges,** as their documentation says, and nothing
else is used of them: sines and cosines lie between -1 and 1, and a point other than the origin that
is neither to the left of it nor below is seen at an angle between zero and half of π. -/
structure IsBounded (t : Trigonometry) : Prop where
  sin : ∀ angle : Float, angle.isFinite = true → -1 ≤ t.sin angle ∧ t.sin angle ≤ 1
  cos : ∀ angle : Float, angle.isFinite = true → -1 ≤ t.cos angle ∧ t.cos angle ≤ 1
  atan2 : ∀ y x : Float, y.isFinite = true → x.isFinite = true → 0 ≤ y → 0 ≤ x →
    0 < y ∨ 0 < x → 0 ≤ t.atan2 y x ∧ t.atan2 y x ≤ Geo.pi / 2

variable {t : Trigonometry} (ht : t.IsBounded)

theorem within_one {x : Float} (h : -1 ≤ x ∧ x ≤ 1) : Within x (2 ^ (0 : ℤ)) := by
  have hone : Within 1 (2 ^ (0 : ℤ)) :=
    (approximates_ofNat (n := 1) (by norm_num)).within (by norm_num) (by norm_num)
  have hfinite := isFinite_of_between hone.neg.isFinite hone.isFinite h.1 h.2
  exact ⟨hfinite, magnitude_le_of_between hfinite hone.neg hone h.1 h.2⟩

include ht

/-- The square of half the chord is a number between zero and one. -/
theorem IsBounded.halfChordSquared {lat₁ lon₁ lat₂ lon₂ : Float}
    (hlat₁ : Within lat₁ (2 ^ (64 : ℤ))) (hlon₁ : Within lon₁ (2 ^ (64 : ℤ)))
    (hlat₂ : Within lat₂ (2 ^ (64 : ℤ))) (hlon₂ : Within lon₂ (2 ^ (64 : ℤ))) :
    0 ≤ t.halfChordSquared lat₁ lon₁ lat₂ lon₂ ∧ t.halfChordSquared lat₁ lon₁ lat₂ lon₂ ≤ 1 := by
  have hsin {x y : Float} (hx : Within x (2 ^ (64 : ℤ))) (hy : Within y (2 ^ (64 : ℤ))) :
      Within (t.sin (Geo.radians (x - y) / 2)) (2 ^ (0 : ℤ)) := by
    have hdifference : Within (x - y) (2 ^ (65 : ℤ)) :=
      hx.sub hy (by norm_num) (by norm_num) (by norm_num)
    exact within_one (ht.sin _ (Geo.isFinite_half (Geo.within_radians hdifference)))
  have hcos {x : Float} (hx : Within x (2 ^ (64 : ℤ))) :
      Within (t.cos (Geo.radians x)) (2 ^ (0 : ℤ)) := by
    have hwide : Within x (2 ^ (65 : ℤ)) := hx.mono (zpow_le_zpow_right₀ one_le_two (by norm_num))
    exact within_one (ht.cos _ (Geo.within_radians hwide).isFinite)
  have hmul {x y : Float} (hx : Within x (2 ^ (0 : ℤ))) (hy : Within y (2 ^ (0 : ℤ))) :
      Within (x * y) (2 ^ (0 : ℤ)) := hx.mul hy (by norm_num) (by norm_num) (by norm_num)
  have hlat := hsin hlat₂ hlat₁
  have hlon := hsin hlon₂ hlon₁
  have hsum := (hmul hlat hlat).add (hmul (hmul (hcos hlat₁) (hcos hlat₂)) (hmul hlon hlon))
    (j := 1) (by norm_num) (by norm_num) (by norm_num)
  exact Geo.clamp_between (by decide) hsum.isFinite

/-- Half the angle at the centre of the globe, for a chord of which the square is given. -/
theorem IsBounded.halfAngle {a : Float} (hlow : 0 ≤ a) (hhigh : a ≤ 1) :
    0 ≤ t.atan2 a.sqrt (1 - a).sqrt ∧ t.atan2 a.sqrt (1 - a).sqrt ≤ Geo.pi / 2 := by
  have hzero : (0 : Float).isFinite = true := rfl
  have hone : (1 : Float).isFinite = true := rfl
  have ha := isFinite_of_between hzero hone hlow hhigh
  have hvalues : 0 ≤ value a ∧ value a ≤ 1 := by
    rw [le_iff_value hzero ha, value_zero] at hlow
    rw [le_iff_value ha hone, value_one] at hhigh
    exact ⟨hlow, hhigh⟩
  have hrest : RoundsTo (1 - a) (1 - value a) := by
    have hsub := roundsTo_sub hone ha
    rw [value_one] at hsub
    refine hsub ((abs_le.mpr ⟨?_, ?_⟩ : |1 - value a| ≤ 1).trans (one_le_zpow₀ one_le_two ?_))
    · linarith
    · linarith
    · norm_num
  have hrest₀ : 0 ≤ 1 - a := hrest.ge hzero (by rw [value_zero]; linarith)
  obtain ⟨hsqrt, hsqrt₀, hpos⟩ := nonneg_sqrt ha hlow
  obtain ⟨hsqrt', hsqrt₀', hpos'⟩ := nonneg_sqrt hrest.isFinite hrest₀
  refine ht.atan2 _ _ hsqrt hsqrt' hsqrt₀ hsqrt₀' ?_
  by_cases habove : 0 < a
  · exact .inl (hpos habove)
  · -- then nothing is taken from one
    rw [lt_iff_value hzero ha, value_zero] at habove
    have hle : 1 ≤ 1 - a := hrest.ge hone (by rw [value_one]; linarith)
    rw [le_iff_value hone hrest.isFinite, value_one] at hle
    refine .inr (hpos' ?_)
    rw [lt_iff_value hzero hrest.isFinite, value_zero]
    linarith

omit ht in
/-- Twice half an angle is an angle. -/
theorem double_between {x : Float} (hlow : 0 ≤ x) (hhigh : x ≤ Geo.pi / 2) :
    (2 * x).isFinite = true ∧ 0 ≤ 2 * x ∧ 2 * x ≤ Geo.pi := by
  have hzero : (0 : Float).isFinite = true := rfl
  have htwo : (2 : Float).isFinite = true := rfl
  have hpi : Geo.pi.isFinite = true := rfl
  have hright : (Geo.pi / 2).isFinite = true := rfl
  have hx := isFinite_of_between hzero hright hlow hhigh
  obtain ⟨hvalue, hhalf⟩ := Geo.value_pi
  rw [le_iff_value hzero hx, value_zero] at hlow
  rw [le_iff_value hx hright, hhalf] at hhigh
  have hdouble : RoundsTo (2 * x) (2 * value x) := by
    have hmul := roundsTo_mul htwo hx
    rw [value_two, abs_of_nonneg (by linarith)] at hmul
    refine hmul (le_trans ?_ (two_zpow_le_top (j := 2) (by norm_num)))
    norm_num at hvalue ⊢
    linarith
  exact ⟨hdouble.isFinite, hdouble.ge hzero (by rw [value_zero]; linarith),
    hdouble.le hpi (by linarith)⟩

omit ht in
/-- Twice half the angle, times the radius of the earth. -/
theorem isDistance_of_halfAngle {x : Float} (hlow : 0 ≤ x) (hhigh : x ≤ Geo.pi / 2) :
    Track.IsDistance (Geo.earthRadiusKm * (2 * x)) := by
  have hzero : (0 : Float).isFinite = true := rfl
  have hpi : Geo.pi.isFinite = true := rfl
  have hradius : Geo.earthRadiusKm.isFinite = true := rfl
  have hcircle : (20016 : Float).isFinite = true := rfl
  obtain ⟨hangle, hangle₀, hangle'⟩ := double_between hlow hhigh
  rw [le_iff_value hzero hangle, value_zero] at hangle₀
  rw [le_iff_value hangle hpi, Geo.value_pi.1] at hangle'
  have hbound : 6371 * value (2 * x) ≤ 20016 := by
    norm_num at hangle'
    linarith
  have hround : RoundsTo (Geo.earthRadiusKm * (2 * x)) (6371 * value (2 * x)) := by
    have hmul := roundsTo_mul hradius hangle
    rw [Geo.value_earthRadiusKm, abs_of_nonneg (by linarith)] at hmul
    exact hmul (hbound.trans (le_trans (by norm_num) (two_zpow_le_top (j := 15) (by norm_num))))
  refine ⟨hround.isFinite, hround.ge hzero ?_, hround.le hcircle ?_⟩
  · rw [value_zero]
    linarith
  · rwa [Geo.value_halfCircle]

/-- **The haversine formula gives distances on the earth** between coordinates that are not far out
of range. -/
theorem IsBounded.isDistance_haversineKm {lat₁ lon₁ lat₂ lon₂ : Float}
    (hlat₁ : Within lat₁ (2 ^ (64 : ℤ))) (hlon₁ : Within lon₁ (2 ^ (64 : ℤ)))
    (hlat₂ : Within lat₂ (2 ^ (64 : ℤ))) (hlon₂ : Within lon₂ (2 ^ (64 : ℤ))) :
    Track.IsDistance (t.haversineKm lat₁ lon₁ lat₂ lon₂) := by
  obtain ⟨hlow, hhigh⟩ := ht.halfChordSquared hlat₁ hlon₁ hlat₂ hlon₂
  obtain ⟨hangle, hangle'⟩ := ht.halfAngle hlow hhigh
  exact isDistance_of_halfAngle hangle hangle'

theorem IsBounded.isDistance_distanceKm {p q : Position} (hp : p.IsModerate) (hq : q.IsModerate) :
    Track.IsDistance (t.distanceKm p q) :=
  ht.isDistance_haversineKm hp.latitude hp.longitude hq.latitude hq.longitude

omit ht

/-- **The functions of angles so small** that the next terms of their series are rounded away.  They
are exact to the last bit below `2 ^ (-27)`, as for places within a few centimetres of latitude and
longitude zero, and stay within their ranges everywhere. -/
def ofSmallAngles : Trigonometry where
  sin := Geo.clamp (-1) 1
  cos _ := 1
  atan2 y _ := Geo.clamp 0 (Geo.pi / 2) y

theorem isBounded_ofSmallAngles : ofSmallAngles.IsBounded where
  sin _ h := Geo.clamp_between (by decide) h
  cos _ _ := by
    show -1 ≤ (1 : Float) ∧ (1 : Float) ≤ 1
    decide
  atan2 _ _ hy _ _ _ _ := Geo.clamp_between (by decide) hy

end Trigonometry
end Fleet
