import Mathlib.Data.Prod.Lex
import Mathlib.Order.Compare
import Fleet.Number.Binary64

/-!
# Comparing floats

Numbers, that is floats other than NaN, are compared by their places in a linear order
(`compare_eq_place`), so `≤` is transitive on them and the negation of the opposite `<`.  NaN is
comparable with nothing.  The total order of floats tells all floats apart: `Binary64.rank_inj`.
-/

namespace Fleet

namespace Comparison

open Float.Model

/-! ## Places of numbers -/

/-- Where a number stands among the others: by its kind, from `-∞` over the negative numbers, zero
and the positive numbers to `∞`, and within a kind by exponent and mantissa. -/
def place : UnpackedFloat → Int ×ₗ Int ×ₗ Int
  | .infinity .negative => toLex (-2, toLex (0, 0))
  | .finite .negative m e _ => toLex (-1, toLex (-e, -m))
  | .finite .positive m e _ => toLex (1, toLex (e, m))
  | .infinity .positive => toLex (2, toLex (0, 0))
  | _ => toLex (0, toLex (0, 0))

theorem compare_toLex (a b c d : Int) :
    compare (toLex (a, b)) (toLex (c, d)) = (compare a c).then (compare b d) := by
  rw [Prod.Lex.compare_def]
  rfl

theorem compare_natCast (m n : Nat) : compare (m : Int) n = compare m n := by
  simp only [compare, compareOfLessAndEq]
  grind

theorem compare_neg (i j : Int) : compare (-i) (-j) = (compare i j).swap := by
  simp only [compare, compareOfLessAndEq]
  grind [Ordering.swap]

/-- **Numbers are compared by their places.** -/
theorem compare_eq_place {u v : UnpackedFloat} (hu : u.isNaN = false) (hv : v.isNaN = false) :
    u.compare v = some (compare (place u) (place v)) := by
  rcases u with (_ | _) | _ | (_ | _) | ⟨_ | _, m, e, hm⟩
  case notANumber => cases hu
  all_goals rcases v with (_ | _) | _ | (_ | _) | ⟨_ | _, m', e', hm'⟩
  case finite.negative.finite.negative =>
    show some ((compare e e').then (compare m m')).swap =
      some (compare (toLex (-e, -(m : Int))) (toLex (-e', -(m' : Int))))
    rw [compare_toLex, compare_neg, compare_neg, compare_natCast, Ordering.swap_then]
  case finite.positive.finite.positive =>
    show some ((compare e e').then (compare m m')) =
      some (compare (toLex (e, (m : Int))) (toLex (e', (m' : Int))))
    rw [compare_toLex, compare_natCast]
  -- numbers of different kinds, or of a kind that has one place
  all_goals first | rfl | cases hv

/-! ## Numbers -/

/-- The place of a float that is a number. -/
abbrev placeOf (x : Float) : Int ×ₗ Int ×ₗ Int := place x.toModel.unpack

variable {x y z : Float}

/-- Whoever is comparable is a number. -/
theorem isNaN_of_le (h : x ≤ y) : x.isNaN = false ∧ y.isNaN = false := by
  have hle : (x.toModel.unpack.compare y.toModel.unpack).any (·.isLE) = true :=
    of_decide_eq_true h
  constructor
  · show x.toModel.unpack.isNaN = false
    cases hx : x.toModel.unpack with
    | notANumber =>
      rw [hx] at hle
      cases hle
    | _ => rfl
  · show y.toModel.unpack.isNaN = false
    cases hy : y.toModel.unpack with
    | notANumber =>
      rw [hy] at hle
      cases hx : x.toModel.unpack <;> rw [hx] at hle <;> cases hle
    | _ => rfl

theorem le_iff_place (hx : x.isNaN = false) (hy : y.isNaN = false) :
    x ≤ y ↔ placeOf x ≤ placeOf y := by
  have hle : x ≤ y ↔ (x.toModel.unpack.compare y.toModel.unpack).any (·.isLE) = true :=
    decide_eq_true_iff
  rw [hle, compare_eq_place hx hy, Option.any_some, Ordering.isLE_iff_ne_gt]
  exact compare_le_iff_le

theorem lt_iff_place (hx : x.isNaN = false) (hy : y.isNaN = false) :
    x < y ↔ placeOf x < placeOf y := by
  have hlt : x < y ↔ (x.toModel.unpack.compare y.toModel.unpack == some .lt) = true :=
    decide_eq_true_iff
  rw [hlt, compare_eq_place hx hy, beq_iff_eq, Option.some.injEq, compare_lt_iff_lt]

/-- A number is at most itself. -/
theorem le_self (hx : x.isNaN = false) : x ≤ x := (le_iff_place hx hx).mpr le_rfl

theorem le_trans (hxy : x ≤ y) (hyz : y ≤ z) : x ≤ z := by
  obtain ⟨hx, hy⟩ := isNaN_of_le hxy
  obtain ⟨-, hz⟩ := isNaN_of_le hyz
  rw [le_iff_place hx hy] at hxy
  rw [le_iff_place hy hz] at hyz
  exact (le_iff_place hx hz).mpr (hxy.trans hyz)

theorem lt_trans (hx : x.isNaN = false) (hy : y.isNaN = false) (hz : z.isNaN = false)
    (hxy : x < y) (hyz : y < z) : x < z := by
  rw [lt_iff_place hx hy] at hxy
  rw [lt_iff_place hy hz] at hyz
  exact (lt_iff_place hx hz).mpr (hxy.trans hyz)

/-- **Of two numbers, one that is not less is at least as large.** -/
theorem not_lt_iff (hx : x.isNaN = false) (hy : y.isNaN = false) : ¬x < y ↔ y ≤ x := by
  rw [lt_iff_place hx hy, le_iff_place hy hx, not_lt]

theorem le_of_lt (hx : x.isNaN = false) (hy : y.isNaN = false) (h : x < y) : x ≤ y :=
  (le_iff_place hx hy).mpr ((lt_iff_place hx hy).mp h).le

end Comparison

/-! ## The total order -/

/-- **Floats at one place of the total order are the same.** -/
theorem Binary64.rank_inj {x y : Float} : rank x = rank y ↔ x = y := by
  refine ⟨fun h => ?_, congrArg rank⟩
  have hx := x.toBits.toNat_lt
  have hy := y.toBits.toNat_lt
  have hword : x.toBits.toNat = y.toBits.toNat := by
    unfold rank at h
    dsimp only at h
    split at h <;> split at h <;> omega
  obtain ⟨⟨bits, hvalid⟩⟩ := x
  obtain ⟨⟨bits', hvalid'⟩⟩ := y
  obtain rfl : bits = bits' := UInt64.toNat_inj.mp hword
  rfl

end Fleet
