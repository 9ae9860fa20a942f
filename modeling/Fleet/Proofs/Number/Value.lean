import Fleet.Proofs.Number.Magnitude

/-!
# The numbers that floats stand for

A float that is finite stands for a rational number (`Rounding.value`), the one that its bits spell
and that arithmetic unpacks (`value_eq_signed`); what is taken as its floor is the floor of that
number.  Two such numbers are the same if they are closer than the bits behind the point of the
larger one can tell (`IsCanonical.eq_of_close`).
-/

namespace Fleet

open Rounding Float.Model Float.Model.UnpackedFloat

/-! ## Bits -/

namespace Binary64

/-- The number, or zero for what is none. -/
def value : Binary64 → ℚ
  | .finite negative m q => if negative then -(m * 2 ^ q) else m * 2 ^ q
  | _ => 0

theorem abs_value (negative : Bool) (m : Nat) (q : Int) :
    |value (.finite negative m q)| = m * 2 ^ q := by
  have hnonneg : (0 : ℚ) ≤ m * 2 ^ q := by positivity
  cases negative with
  | false => exact abs_of_nonneg hnonneg
  | true => exact (abs_neg _).trans (abs_of_nonneg hnonneg)

/-- **The floor is that of the number.** -/
theorem floorInt_eq (negative : Bool) (m : Nat) (q : Int) :
    floorInt negative m q = ⌊value (.finite negative m q)⌋ := by
  have hvalue : value (.finite negative m q) =
      ((if negative then -m else m : ℤ) : ℚ) * 2 ^ q := by
    cases negative with
    | false => exact congrArg (· * 2 ^ q) (Int.cast_natCast m).symm
    | true =>
      show -((m : ℚ) * 2 ^ q) = ((-m : ℤ) : ℚ) * 2 ^ q
      rw [Int.cast_neg, Int.cast_natCast, neg_mul]
  rw [hvalue, floorInt]
  generalize (if negative then -(m : ℤ) else m) = signed
  split
  · rename_i hq
    obtain ⟨k, rfl⟩ := Int.eq_ofNat_of_zero_le hq
    rw [Int.toNat_natCast, zpow_natCast]
    exact_mod_cast (Int.floor_intCast (R := ℚ) (signed * 2 ^ k)).symm
  · obtain ⟨k, hk⟩ := Int.eq_ofNat_of_zero_le (show 0 ≤ -q by omega)
    obtain rfl : q = -k := by omega
    rw [neg_neg, Int.toNat_natCast, zpow_neg, zpow_natCast, ← div_eq_mul_inv]
    exact_mod_cast (Rat.floor_intCast_div_natCast signed (2 ^ k)).symm

/-- The sign that is unpacked is the first bit. -/
theorem sign_unpack (x : Float) : Sign.ofBitVec (@unpackSign double x.toBits.toBitVec) =
    if 2 ^ 63 ≤ x.toBits.toNat then .negative else .positive := by
  have hlt := x.toBits.toNat_lt
  have hsign : (@unpackSign double x.toBits.toBitVec).toNat = x.toBits.toNat / 2 ^ 63 := by
    show (BitVec.extractLsb 63 63 x.toBits.toBitVec).toNat = _
    rw [BitVec.extractLsb_toNat, Nat.shiftRight_eq_div_pow]
    show x.toBits.toNat / 2 ^ 63 % 2 ^ (63 - 63 + 1) = _
    omega
  have hzero : @unpackSign double x.toBits.toBitVec = 0#1 ↔ x.toBits.toNat < 2 ^ 63 := by
    rw [← BitVec.toNat_inj, hsign]
    show x.toBits.toNat / 2 ^ 63 = 0 ↔ _
    omega
  rw [Sign.ofBitVec]
  by_cases hneg : 2 ^ 63 ≤ x.toBits.toNat
  · rw [if_pos hneg, if_neg (mt hzero.mp (Nat.not_lt.mpr hneg))]
  · rw [if_neg hneg, if_pos (hzero.mpr (Nat.not_le.mp hneg))]

theorem toNat_unpackExponent (x : Float) :
    (@unpackExponent double x.toBits.toBitVec).toNat = x.toBits.toNat / 2 ^ 52 % 2 ^ 11 := by
  show (BitVec.extractLsb 62 52 x.toBits.toBitVec).toNat = _
  rw [BitVec.extractLsb_toNat, Nat.shiftRight_eq_div_pow]
  rfl

theorem toNat_unpackMantissa (x : Float) :
    (@unpackMantissa double x.toBits.toBitVec).toNat = x.toBits.toNat % 2 ^ 52 := by
  show (BitVec.extractLsb 51 0 x.toBits.toBitVec).toNat = _
  rw [BitVec.extractLsb_toNat, Nat.shiftRight_eq_div_pow, pow_zero, Nat.div_one]
  rfl

/-- **A float that is finite** is the number that its bits stand for. -/
theorem finite_of_isFinite {x : Float} (h : x.isFinite = true) :
    ∃ negative m q, ofFloat x = .finite negative m q ∧ m < 2 ^ 53 ∧ q ≤ 971 ∧
      value (.finite negative m q) = signed x.toModel.unpack := by
  have hexponent := toNat_unpackExponent x
  have hmantissa := toNat_unpackMantissa x
  have hsigned (m : Nat) (q : Int) (hpos : 0 < m) :
      value (.finite (2 ^ 63 ≤ x.toBits.toNat) m q) =
        signed (.finite (.ofBitVec (@unpackSign double x.toBits.toBitVec)) m q hpos) := by
    rw [sign_unpack]
    by_cases hneg : 2 ^ 63 ≤ x.toBits.toNat
    · rw [if_pos hneg, decide_eq_true hneg]
      exact (neg_one_mul _).symm
    · rw [if_neg hneg, decide_eq_false hneg]
      exact (one_mul _).symm
  have hbias : (double.exponentBias : Int) + (double.mantissaBitsWithoutImplicit : Int) = 1075 :=
    rfl
  have hunpack : x.toModel.unpack = UnpackedFloat.unpack double x.toBits.toBitVec := rfl
  have hfinite : (UnpackedFloat.unpack double x.toBits.toBitVec).isFinite = true := h
  rw [hunpack]
  rw [UnpackedFloat.unpack] at hfinite ⊢
  simp only [hbias, hexponent] at hfinite ⊢
  by_cases hones : @unpackExponent double x.toBits.toBitVec = -1#(double.exponentBits)
  · rw [if_pos hones] at hfinite
    split at hfinite <;> cases hfinite
  have hlargest : x.toBits.toNat / 2 ^ 52 % 2 ^ 11 ≠ 2047 := fun heq =>
    hones (BitVec.eq_of_toNat_eq (hexponent.trans heq))
  rw [if_neg hones, ofFloat, ofBits, if_neg hlargest]
  by_cases hleast : x.toBits.toNat / 2 ^ 52 % 2 ^ 11 = 0
  · have hzero : @unpackExponent double x.toBits.toBitVec = 0#(double.exponentBits) :=
      BitVec.eq_of_toNat_eq (hexponent.trans hleast)
    rw [if_pos hleast, if_pos hzero]
    refine ⟨_, _, _, rfl, by omega, by norm_num, ?_⟩
    split
    · rename_i hnone
      have hnat : x.toBits.toNat % 2 ^ 52 = 0 :=
        hmantissa.symm.trans (congrArg BitVec.toNat hnone)
      rw [hnat]
      refine abs_eq_zero.mp ?_
      rw [abs_value, Nat.cast_zero, zero_mul]
    · rw [← hsigned, hmantissa, hleast]
      rfl
  · have hzero : @unpackExponent double x.toBits.toBitVec ≠ 0#(double.exponentBits) := fun heq =>
      hleast (hexponent.symm.trans (congrArg BitVec.toNat heq))
    have hfull : (1#1 ++ @unpackMantissa double x.toBits.toBitVec).toNat =
        2 ^ 52 + x.toBits.toNat % 2 ^ 52 := by
      rw [toNat_one_append, hmantissa]
    rw [if_neg hleast, if_neg hzero]
    refine ⟨_, _, _, rfl, by omega, by omega, ?_⟩
    rw [← hsigned, hfull]

/-- A float that is infinite is read as such. -/
theorem infinite_of_isInf {x : Float} (h : x.isInf = true) :
    ∃ negative, ofFloat x = .infinite negative := by
  have hinf : (UnpackedFloat.unpack double x.toBits.toBitVec).isInf = true := h
  rw [UnpackedFloat.unpack] at hinf
  by_cases hones : @unpackExponent double x.toBits.toBitVec = -1#(double.exponentBits)
  · rw [if_pos hones] at hinf
    split at hinf
    · rename_i hnone
      have hlargest : x.toBits.toNat / 2 ^ 52 % 2 ^ 11 = 2047 :=
        (toNat_unpackExponent x).symm.trans (congrArg BitVec.toNat hones)
      have hfraction : x.toBits.toNat % 2 ^ 52 = 0 :=
        (toNat_unpackMantissa x).symm.trans (congrArg BitVec.toNat hnone)
      exact ⟨_, by rw [ofFloat, ofBits, if_pos hlargest, if_pos hfraction]⟩
    · cases hinf
  · rw [if_neg hones] at hinf
    split at hinf
    · split at hinf <;> cases hinf
    · cases hinf

end Binary64

namespace Rounding

/-! ## Finite floats -/

/-- **The number that a float stands for.** -/
def value (x : Float) : ℚ := (Binary64.ofFloat x).value

theorem value_zero : value 0 = 0 := by
  have hbits : Binary64.ofFloat 0 = .finite false 0 (-1074) := rfl
  rw [value, hbits]
  norm_num [Binary64.value]

theorem value_one : value 1 = 1 := by
  have hbits : Binary64.ofFloat 1 = .finite false (2 ^ 52) (-52) := rfl
  rw [value, hbits]
  norm_num [Binary64.value]

theorem value_two : value 2 = 2 := by
  have hbits : Binary64.ofFloat 2 = .finite false (2 ^ 52) (-51) := rfl
  rw [value, hbits]
  norm_num [Binary64.value]

section Finite

variable {x : Float} (hx : x.isFinite = true)
include hx

theorem value_eq_signed : value x = signed x.toModel.unpack := by
  obtain ⟨negative, m, q, hbits, -, -, hsigned⟩ := Binary64.finite_of_isFinite hx
  rw [value, hbits, hsigned]

theorem abs_value : |value x| = magnitude x := by
  rw [value_eq_signed hx, abs_signed, magnitude]

/-- Floats are compared like the numbers they stand for. -/
theorem le_iff_value {y : Float} (hy : y.isFinite = true) : x ≤ y ↔ value x ≤ value y := by
  rw [le_iff, le_iff_signed (isCanonical_unpack hx).1 (isCanonical_unpack hy).1,
    value_eq_signed hx, value_eq_signed hy]

/-- The floor of a finite float is held at the ends of the 64-bit range. -/
theorem floorInt64_eq : (Binary64.ofFloat x).floorInt64 = Int64.ofIntClamp ⌊value x⌋ := by
  obtain ⟨negative, m, q, hbits, -⟩ := Binary64.finite_of_isFinite hx
  rw [value, hbits, ← Binary64.floorInt_eq]
  rfl

end Finite

/-! ## Close floats -/

/-- Two floats above zero that are too close to be told apart. -/
theorem parts_eq_of_close {m m' : Nat} {e e' : Int} (hm : m < 2 ^ 53) (hm' : m' < 2 ^ 53)
    (hfull : 2 ^ 52 ≤ m ∨ e = -1074) (hfull' : 2 ^ 52 ≤ m' ∨ e' = -1074) (he : -1074 ≤ e)
    (he' : -1074 ≤ e')
    (hclose : (2 : ℚ) ^ 53 * |(m : ℚ) * 2 ^ e - m' * 2 ^ e'| < m * 2 ^ e) : m = m' ∧ e = e' := by
  obtain ⟨hbelow, habove⟩ :
      2 ^ 53 * ((m : ℚ) * 2 ^ e - m' * 2 ^ e') < m * 2 ^ e ∧
        2 ^ 53 * ((m' : ℚ) * 2 ^ e' - m * 2 ^ e) < m * 2 ^ e := by
    constructor
    · exact (mul_le_mul_of_nonneg_left (le_abs_self _) (by positivity)).trans_lt hclose
    · rw [abs_sub_comm] at hclose
      exact (mul_le_mul_of_nonneg_left (le_abs_self _) (by positivity)).trans_lt hclose
  have hpos : (0 : ℚ) < 2 ^ e := zpow_pos two_pos e
  have hpos' : (0 : ℚ) < 2 ^ e' := zpow_pos two_pos e'
  rcases lt_trichotomy e e' with hlt | rfl | hgt
  · -- the other one is at least the next power of two
    exfalso
    have hmantissa : (2 ^ 52 : ℚ) ≤ m' := by exact_mod_cast hfull'.resolve_right (by omega)
    have hpower : (2 : ℚ) * 2 ^ e ≤ 2 ^ e' := by
      rw [← zpow_one_add₀ two_ne_zero]
      exact zpow_le_zpow_right₀ one_le_two (by omega)
    have hnext : (2 ^ 53 : ℚ) * 2 ^ e ≤ m' * 2 ^ e' := by
      calc (2 ^ 53 : ℚ) * 2 ^ e = 2 ^ 52 * (2 * 2 ^ e) := by ring
        _ ≤ m' * 2 ^ e' := mul_le_mul hmantissa hpower (by positivity) (Nat.cast_nonneg _)
    have hsucc : (m : ℚ) + 1 ≤ 2 ^ 53 := by exact_mod_cast hm
    nlinarith
  · have hmantissa : 2 ^ 53 * ((m : ℚ) - m') < m ∧ 2 ^ 53 * ((m' : ℚ) - m) < m := by
      constructor <;> nlinarith
    have hnat : 2 ^ 53 * (m : ℤ) < 2 ^ 53 * m' + m ∧ 2 ^ 53 * (m' : ℤ) < 2 ^ 53 * m + m := by
      constructor
      · exact_mod_cast (show (2 : ℚ) ^ 53 * m < 2 ^ 53 * m' + m by linarith [hmantissa.1])
      · exact_mod_cast (show (2 : ℚ) ^ 53 * m' < 2 ^ 53 * m + m by linarith [hmantissa.2])
    exact ⟨by omega, rfl⟩
  · -- the other one is at most the number before the power of two
    exfalso
    have hmantissa : 2 ^ 52 ≤ m := hfull.resolve_right (by omega)
    have hpower : (2 : ℚ) ^ e = 2 * 2 ^ (e - 1) := by
      rw [← zpow_one_add₀ two_ne_zero]
      congr 1
      omega
    have hle : (m' : ℚ) * 2 ^ e' ≤ m' * 2 ^ (e - 1) :=
      mul_le_mul_of_nonneg_left (zpow_le_zpow_right₀ one_le_two (by omega)) (Nat.cast_nonneg _)
    have hunits : 2 ^ 53 * (2 * m - m') * (2 : ℚ) ^ (e - 1) < 2 * m * 2 ^ (e - 1) := by
      rw [hpower] at hbelow
      linarith
    have hrational : 2 ^ 53 * (2 * m - m') < 2 * (m : ℚ) :=
      lt_of_mul_lt_mul_right hunits (zpow_pos two_pos _).le
    have hnat : 2 ^ 53 * (2 * (m : ℤ) - m') < 2 * m := by exact_mod_cast hrational
    omega

/-- **Floats that are too close for the bits of one of them** are the same. -/
theorem IsCanonical.eq_of_close {u u' : UnpackedFloat} (hu : IsCanonical u) (hu' : IsCanonical u')
    (hclose : 2 ^ 53 * |signed u - signed u'| < size u) : u' = u := by
  have hpos : 0 < size u := (mul_nonneg (by positivity) (abs_nonneg _)).trans_lt hclose
  have hless : |signed u - signed u'| < size u :=
    (le_mul_of_one_le_left (abs_nonneg _) (by norm_num)).trans_lt hclose
  rcases isCanonical_cases hu with ⟨s, rfl⟩ | ⟨s, m, e, h, rfl⟩
  · exact absurd hpos (lt_irrefl 0)
  rcases isCanonical_cases hu' with ⟨s', rfl⟩ | ⟨s', m', e', h', rfl⟩
  · have hzero : signed (.zero s') = 0 := rfl
    rw [hzero, sub_zero, abs_signed] at hless
    exact absurd hless (lt_irrefl _)
  have hsize' : 0 ≤ size (.finite s' m' e' h') := size_nonneg _
  have hdifference : |signed (.finite s m e h) - signed (.finite s' m' e' h')| =
      |factor s * size (.finite s m e h) - factor s' * size (.finite s' m' e' h')| := rfl
  rw [hdifference] at hclose hless
  obtain rfl : s' = s := by
    by_contra hne
    have hsum : factor s * size (.finite s m e h) - factor s' * size (.finite s' m' e' h') =
        factor s * (size (.finite s m e h) + size (.finite s' m' e' h')) := by
      cases s <;> cases s' <;> first | exact absurd rfl hne | (simp only [factor]; ring)
    rw [hsum, abs_mul, abs_factor, one_mul, abs_of_nonneg (by linarith)] at hless
    linarith
  rw [← mul_sub, abs_mul, abs_factor, one_mul] at hclose
  obtain ⟨rfl, rfl⟩ := parts_eq_of_close hu.1 hu'.1 hu.2.2 hu'.2.2 hu.2.1 hu'.2.1 hclose
  rfl

end Rounding
end Fleet
