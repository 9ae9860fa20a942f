import Mathlib
import Fleet.Number.Binary64

/-!
# Floats as rounded numbers

A float that is finite is a whole number of units, and the unit is a power of two.  What an
operation gives is the exact result, rounded to units of its own size (`round_eq`), and packing
leaves a number as it is unless it is too large (`unpack_pack`).
-/

namespace Fleet.Rounding

open Float.Model Float.Model.UnpackedFloat

/-- The format of floats. -/
abbrev double : Format := Format.binary64

/-! ## Finite floats -/

/-- **Finite floats,** as they are unpacked: at most 53 bits, and all of them unless the unit is the
smallest one. -/
def IsCanonical : UnpackedFloat → Prop
  | .zero _ => True
  | .finite _ m e _ => m < 2 ^ 53 ∧ -1074 ≤ e ∧ (2 ^ 52 ≤ m ∨ e = -1074)
  | _ => False

/-- The absolute value of a finite float. -/
def size : UnpackedFloat → ℚ
  | .finite _ m e _ => m * 2 ^ e
  | _ => 0

theorem size_nonneg (u : UnpackedFloat) : 0 ≤ size u := by
  cases u with
  | finite s m e h => exact mul_nonneg (Nat.cast_nonneg m) (zpow_pos two_pos e).le
  | notANumber => exact le_rfl
  | infinity s => exact le_rfl
  | zero s => exact le_rfl

/-- A sign as a factor. -/
def factor : Sign → ℚ
  | .negative => -1
  | .positive => 1

theorem abs_factor (s : Sign) : |factor s| = 1 := by cases s <;> simp [factor]

/-- The value of a finite float. -/
def signed : UnpackedFloat → ℚ
  | .finite s m e _ => factor s * (m * 2 ^ e)
  | _ => 0

theorem abs_signed (u : UnpackedFloat) : |signed u| = size u := by
  cases u with
  | finite s m e h =>
    rw [signed, abs_mul, abs_factor, one_mul]
    exact abs_of_nonneg (size_nonneg (.finite s m e h))
  | notANumber => exact abs_zero
  | infinity s => exact abs_zero
  | zero s => exact abs_zero

/-- An exponent in range keeps a float in range. -/
theorem size_lt {m : Nat} {e : Int} (hm : m < 2 ^ 53) (he : e < 972) :
    (m : ℚ) * 2 ^ e < 2 ^ (1024 : ℤ) := by
  have hmantissa : (m : ℚ) < 2 ^ (53 : ℤ) := by exact_mod_cast hm
  have hpower : (2 : ℚ) ^ e ≤ 2 ^ (971 : ℤ) := zpow_le_zpow_right₀ one_le_two (by omega)
  calc (m : ℚ) * 2 ^ e ≤ m * 2 ^ (971 : ℤ) := mul_le_mul_of_nonneg_left hpower (Nat.cast_nonneg m)
    _ < 2 ^ (53 : ℤ) * 2 ^ (971 : ℤ) := mul_lt_mul_of_pos_right hmantissa (zpow_pos two_pos _)
    _ = 2 ^ (1024 : ℤ) := (zpow_add₀ two_ne_zero 53 971).symm

/-- A mantissa with the bit in front of it that is not stored. -/
theorem toNat_one_append (m : BitVec 52) : (1#1 ++ m).toNat = 2 ^ 52 + m.toNat := by
  rw [BitVec.toNat_append, ← Nat.shiftLeft_add_eq_or_of_lt m.isLt, Nat.shiftLeft_eq]
  rfl

/-- **What is unpacked** is finite in this way, and in range, if it is finite at all. -/
theorem isCanonical_unpack {x : Float.Model} (h : x.unpack.isFinite = true) :
    IsCanonical x.unpack ∧ size x.unpack < 2 ^ (1024 : ℤ) := by
  have hunpack : x.unpack = UnpackedFloat.unpack double x.toBits.toBitVec := rfl
  have hmantissa : (@unpackMantissa double x.toBits.toBitVec).toNat < 2 ^ 52 :=
    (@unpackMantissa double x.toBits.toBitVec).isLt
  have hbits : (@unpackExponent double x.toBits.toBitVec).toNat < 2048 :=
    (@unpackExponent double x.toBits.toBitVec).isLt
  have hbias : (double.exponentBias : Int) + (double.mantissaBitsWithoutImplicit : Int) = 1075 :=
    rfl
  rw [hunpack, UnpackedFloat.unpack] at h ⊢
  simp only [hbias] at h ⊢
  by_cases hones : @unpackExponent double x.toBits.toBitVec = -1#(double.exponentBits)
  · rw [if_pos hones] at h
    split at h <;> cases h
  have hlargest : (@unpackExponent double x.toBits.toBitVec).toNat ≠ 2047 := fun h =>
    hones (BitVec.eq_of_toNat_eq h)
  rw [if_neg hones]
  by_cases hzero : @unpackExponent double x.toBits.toBitVec = 0#(double.exponentBits)
  · have hexponent : (@unpackExponent double x.toBits.toBitVec).toNat = 0 :=
      congrArg BitVec.toNat hzero
    rw [if_pos hzero]
    split
    · exact ⟨trivial, zpow_pos two_pos _⟩
    · have hleast :
          ((@unpackExponent double x.toBits.toBitVec).toNat : Int) - 1075 + 1 = -1074 := by
        rw [hexponent]
        rfl
      exact ⟨⟨hmantissa.trans (by norm_num), hleast.ge, .inr hleast⟩,
        size_lt (hmantissa.trans (by norm_num)) (by omega)⟩
  · have hpos : (@unpackExponent double x.toBits.toBitVec).toNat ≠ 0 := fun h =>
      hzero (BitVec.eq_of_toNat_eq h)
    have hfull : (1#1 ++ @unpackMantissa double x.toBits.toBitVec).toNat =
        2 ^ 52 + (@unpackMantissa double x.toBits.toBitVec).toNat := toNat_one_append _
    rw [if_neg hzero]
    refine ⟨⟨?_, by omega, .inl ?_⟩, size_lt ?_ (by omega)⟩
    · rw [hfull]
      omega
    · rw [hfull]
      omega
    · rw [hfull]
      omega

/-! ## Rounding -/

/-- The exponent of the units to which a number is rounded. -/
def unitExponent (M : Nat) (E : Int) : Int := max ((M.log2 : Int) + E - 52) (-1074)

/-- What a number becomes if its last `k` bits are rounded away. -/
def rounded (M : Nat) (accuracy : Accuracy) (k : Nat) : Nat :=
  (ExtendedMantissa.ofMantissaAndAccuracy M accuracy >>> k).roundedMantissa

theorem targetExponent_eq (M : Nat) (E : Int) :
    double.targetExponent (totalExponent M E) = unitExponent M E := by
  simp only [Format.targetExponent, totalExponent, Format.minExponent, Format.mantissaBits,
    unitExponent]
  push_cast
  omega

theorem mantissa_shiftRight (em : ExtendedMantissa) (k : Nat) :
    (em >>> k).mantissa = em.mantissa / 2 ^ k := by
  induction k with
  | zero => exact (Nat.div_one _).symm
  | succ k ih =>
    show (em >>> k).mantissa / 2 = _
    rw [ih, Nat.div_div_eq_div_mul, pow_succ]

theorem mantissa_ofMantissaAndAccuracy (M : Nat) (accuracy : Accuracy) :
    (ExtendedMantissa.ofMantissaAndAccuracy M accuracy).mantissa = M := by
  rcases accuracy with _ | (_ | _ | _) <;> rfl

/-- Rounding gives one of the two neighbours. -/
theorem rounded_bounds (M : Nat) (accuracy : Accuracy) (k : Nat) :
    M / 2 ^ k ≤ rounded M accuracy k ∧ rounded M accuracy k ≤ M / 2 ^ k + 1 := by
  have hmantissa : (ExtendedMantissa.ofMantissaAndAccuracy M accuracy >>> k).mantissa =
      M / 2 ^ k := by
    rw [mantissa_shiftRight, mantissa_ofMantissaAndAccuracy]
  rw [← hmantissa, rounded]
  generalize ExtendedMantissa.ofMantissaAndAccuracy M accuracy >>> k = em
  obtain ⟨m, roundBit, stickyBit⟩ := em
  cases roundBit <;> cases stickyBit <;>
    simp only [ExtendedMantissa.roundedMantissa, ExtendedMantissa.accuracy,
      Accuracy.roundToNearestEven] <;> omega

/-- The first bit that is rounded away decides. -/
theorem rounded_succ_of_even {M k : Nat} (h : M / 2 ^ k % 2 = 0) :
    rounded M .exact (k + 1) = M / 2 ^ (k + 1) := by
  have hbit : ((⟨M, false, false⟩ : ExtendedMantissa) >>> (k + 1)).roundBit = false := by
    show (((⟨M, false, false⟩ : ExtendedMantissa) >>> k).mantissa % 2 != 0) = false
    rw [mantissa_shiftRight, h]
    rfl
  have hmantissa := mantissa_shiftRight ⟨M, false, false⟩ (k + 1)
  rw [← hmantissa]
  show ((⟨M, false, false⟩ : ExtendedMantissa) >>> (k + 1)).roundedMantissa = _
  generalize (⟨M, false, false⟩ : ExtendedMantissa) >>> (k + 1) = em at hbit
  obtain ⟨m, roundBit, stickyBit⟩ := em
  obtain rfl : roundBit = false := hbit
  cases stickyBit <;> rfl

/-- **A number that is nearer to the lower neighbour** is rounded down. -/
theorem rounded_le {M B k : Nat} (h : 2 * M < (2 * B + 1) * 2 ^ k) :
    rounded M .exact k ≤ B := by
  have hdiv : M / 2 ^ k ≤ B := by
    refine Nat.lt_succ_iff.mp ((Nat.div_lt_iff_lt_mul (by positivity)).mpr ?_)
    nlinarith [Nat.two_pow_pos k]
  rcases Nat.lt_or_eq_of_le hdiv with hlt | rfl
  · exact (rounded_bounds M .exact k).2.trans hlt
  · cases k with
    | zero => exact (Nat.div_one M).ge
    | succ k =>
      have hhalf : M / 2 ^ (k + 1) = M / 2 ^ k / 2 := by
        rw [Nat.div_div_eq_div_mul, pow_succ]
      have hupper : M / 2 ^ k < 2 * (M / 2 ^ (k + 1)) + 1 := by
        refine (Nat.div_lt_iff_lt_mul (by positivity)).mpr ?_
        have hdouble : (2 * (M / 2 ^ (k + 1)) + 1) * 2 ^ (k + 1) =
            2 * ((2 * (M / 2 ^ (k + 1)) + 1) * 2 ^ k) := by
          ring
        omega
      exact (rounded_succ_of_even (by omega)).le

/-- A number with at most 53 bits, up to a carry, is a float. -/
def ofUnits (s : Sign) (r : Nat) (e : Int) : UnpackedFloat :=
  let (shifted, e') := shiftToTargetExponent double r e .exact
  if h : shifted.mantissa = 0 then .zero s
  else .finite s shifted.mantissa e' (Nat.pos_of_ne_zero h)

theorem ofUnits_spec (s : Sign) {r : Nat} {e : Int} (hr : r ≤ 2 ^ 53) (he : -1074 ≤ e)
    (hfull : 2 ^ 52 ≤ r ∨ e = -1074) :
    IsCanonical (ofUnits s r e) ∧ size (ofUnits s r e) = r * 2 ^ e := by
  have hshift : shiftToTargetExponent double r e .exact =
      ((⟨r, false, false⟩ : ExtendedMantissa) >>> (unitExponent r e - e).toNat,
        e + ((unitExponent r e - e).toNat : Int)) := by
    rw [shiftToTargetExponent, targetExponent_eq]
    rfl
  rw [ofUnits, hshift]
  rcases Nat.lt_or_eq_of_le hr with hlt | rfl
  · have hlog : r.log2 ≤ 52 := by
      by_cases hzero : r = 0
      · rw [hzero]
        exact Nat.zero_le _
      · exact Nat.lt_succ_iff.mp ((Nat.log2_lt hzero).mpr hlt)
    have hnone : (unitExponent r e - e).toNat = 0 := by
      rw [unitExponent]
      omega
    rw [hnone]
    have hmantissa : ((⟨r, false, false⟩ : ExtendedMantissa) >>> 0).mantissa = r := rfl
    simp only [hmantissa]
    split
    · rename_i hzero
      refine ⟨trivial, ?_⟩
      rw [hzero, Nat.cast_zero, zero_mul]
      rfl
    · have hexponent : e + ((0 : Nat) : Int) = e := Int.add_zero e
      refine ⟨⟨hlt, hexponent.symm ▸ he, ?_⟩, ?_⟩
      · rwa [hexponent]
      · rw [hexponent]
        rfl
  · have hlog : (2 ^ 53).log2 = 53 := Nat.log2_two_pow
    have hone : (unitExponent (2 ^ 53) e - e).toNat = 1 := by
      rw [unitExponent, hlog]
      omega
    rw [hone]
    have hmantissa : ((⟨2 ^ 53, false, false⟩ : ExtendedMantissa) >>> 1).mantissa = 2 ^ 52 := rfl
    simp only [hmantissa]
    rw [dif_neg (by norm_num)]
    refine ⟨⟨by norm_num, by omega, .inl le_rfl⟩, ?_⟩
    show ((2 ^ 52 : ℕ) : ℚ) * 2 ^ (e + ((1 : ℕ) : ℤ)) = _
    rw [zpow_add₀ two_ne_zero]
    push_cast
    ring

theorem div_lt_of_log2 (M : Nat) {k : Nat} (hk : M.log2 ≤ 52 + k) : M / 2 ^ k < 2 ^ 53 := by
  refine (Nat.div_lt_iff_lt_mul (by positivity)).mpr ?_
  calc M < 2 ^ (M.log2 + 1) := Nat.lt_log2_self
    _ ≤ 2 ^ (53 + k) := Nat.pow_le_pow_right two_pos (by omega)
    _ = 2 ^ 53 * 2 ^ k := pow_add _ _ _

/-- A number that is not tiny has 53 bits left in front of its units. -/
theorem le_div {M : Nat} {E : Int} (hE : E ≤ unitExponent M E)
    (hlog : -1022 ≤ (M.log2 : Int) + E) :
    2 ^ 52 ≤ M / 2 ^ (unitExponent M E - E).toNat := by
  have hunit : unitExponent M E = (M.log2 : Int) + E - 52 := by
    rw [unitExponent]
    omega
  have hshift : 52 + (unitExponent M E - E).toNat = M.log2 := by omega
  have hM : M ≠ 0 := by
    rintro rfl
    exact absurd hshift (by rw [Nat.log2_zero]; omega)
  refine (Nat.le_div_iff_mul_le (by positivity)).mpr ?_
  calc 2 ^ 52 * 2 ^ (unitExponent M E - E).toNat = 2 ^ M.log2 := by rw [← pow_add, hshift]
    _ ≤ M := Nat.log2_self_le hM

theorem le_div_or {M : Nat} {E : Int} (hE : E ≤ unitExponent M E) :
    2 ^ 52 ≤ M / 2 ^ (unitExponent M E - E).toNat ∨ unitExponent M E = -1074 := by
  by_cases hlog : -1022 ≤ (M.log2 : Int) + E
  · exact .inl (le_div hE hlog)
  · refine .inr ?_
    rw [unitExponent]
    omega

/-- **What a number is rounded to:** a whole number of units. -/
theorem round_eq (s : Sign) {M : Nat} {E : Int} (accuracy : Accuracy) (hE : E ≤ unitExponent M E) :
    IsCanonical (roundWithAccuracy double s M E accuracy) ∧
      size (roundWithAccuracy double s M E accuracy) =
        rounded M accuracy (unitExponent M E - E).toNat * 2 ^ unitExponent M E := by
  have hexponent : E + ((unitExponent M E - E).toNat : Int) = unitExponent M E := by omega
  have hround : roundWithAccuracy double s M E accuracy =
      ofUnits s (rounded M accuracy (unitExponent M E - E).toNat) (unitExponent M E) := by
    rw [roundWithAccuracy, shiftToTargetExponent, targetExponent_eq, shiftToExponent, hexponent]
    rfl
  have hbounds := rounded_bounds M accuracy (unitExponent M E - E).toNat
  rw [hround]
  refine ofUnits_spec s ?_ (le_max_right _ _) ((le_div_or hE).imp_left hbounds.1.trans')
  refine hbounds.2.trans (div_lt_of_log2 M ?_)
  rw [unitExponent]
  omega

/-! ## Bounds that rounding keeps -/

/-- A number lies between two powers of two that follow each other. -/
theorem two_zpow_log2_le {M : Nat} (hM : M ≠ 0) (E : Int) :
    (2 : ℚ) ^ ((M.log2 : Int) + E) ≤ M * 2 ^ E := by
  rw [zpow_add₀ two_ne_zero, zpow_natCast]
  refine mul_le_mul_of_nonneg_right ?_ (zpow_pos two_pos E).le
  exact_mod_cast Nat.log2_self_le hM

theorem lt_two_zpow_log2 (M : Nat) (E : Int) :
    (M : ℚ) * 2 ^ E < 2 ^ ((M.log2 : Int) + E + 1) := by
  have hpower : (2 : ℚ) ^ ((M.log2 : Int) + E + 1) = 2 ^ (M.log2 + 1) * 2 ^ E := by
    rw [add_right_comm, zpow_add₀ two_ne_zero]
    rfl
  rw [hpower]
  refine mul_lt_mul_of_pos_right ?_ (zpow_pos two_pos E)
  exact_mod_cast Nat.lt_log2_self

/-- A number has 53 bits in front of its units and no more. -/
theorem unitExponent_le_of_lt {M : Nat} {E j : Int} (hE : E ≤ unitExponent M E) (hj : -1074 ≤ j)
    (h : (M : ℚ) * 2 ^ E < 2 ^ (j + 53)) : unitExponent M E ≤ j := by
  by_cases hM : M = 0
  · have hlog : M.log2 = 0 := by
      rw [hM]
      rfl
    rw [unitExponent, hlog] at hE ⊢
    omega
  · have hexponent :=
      (zpow_lt_zpow_iff_right₀ one_lt_two).mp ((two_zpow_log2_le hM E).trans_lt h)
    rw [unitExponent]
    omega

/-- The units of a number are small beside a power of two that bounds it. -/
theorem unitExponent_le {M : Nat} {E j : Int} (hE : E ≤ unitExponent M E) (hj : -1074 ≤ j)
    (h : (M : ℚ) * 2 ^ E ≤ 2 ^ j) : unitExponent M E ≤ j :=
  unitExponent_le_of_lt hE hj (h.trans_lt (zpow_lt_zpow_right₀ one_lt_two (by omega)))

/-- Bounds on a number as bounds on what it is a multiple of. -/
theorem exists_shifts {E unit j : Int} (hE : E ≤ unit) (hj : unit ≤ j) :
    ∃ k g : Nat, (unit - E).toNat = k ∧ (2 : ℚ) ^ unit = 2 ^ k * 2 ^ E ∧
      (2 : ℚ) ^ j = 2 ^ g * 2 ^ unit := by
  obtain ⟨k, rfl⟩ : ∃ k : Nat, unit = E + k := ⟨(unit - E).toNat, by omega⟩
  obtain ⟨g, rfl⟩ : ∃ g : Nat, j = E + k + g := ⟨(j - (E + k)).toNat, by omega⟩
  refine ⟨k, g, by omega, ?_, ?_⟩
  · rw [zpow_add₀ two_ne_zero, zpow_natCast, mul_comm]
  · rw [zpow_add₀ two_ne_zero, zpow_natCast, mul_comm]

/-- **A number that is less than half a unit above a whole number of units** is rounded to them at
most. -/
theorem size_round_le_units (s : Sign) {M B : Nat} {E : Int} (hE : E ≤ unitExponent M E)
    (h : (M : ℚ) * 2 ^ E < (B + 1 / 2) * 2 ^ unitExponent M E) :
    size (roundWithAccuracy double s M E .exact) ≤ B * 2 ^ unitExponent M E := by
  obtain ⟨k, -, hk, hunit, -⟩ := exists_shifts hE le_rfl
  have hcast : 2 * (M : ℚ) < (2 * B + 1) * 2 ^ k := by
    rw [hunit] at h
    have hpos : (0 : ℚ) < 2 ^ E := zpow_pos two_pos E
    rw [← mul_lt_mul_iff_left₀ hpos]
    linarith
  have hle : rounded M .exact k ≤ B := rounded_le (by exact_mod_cast hcast)
  rw [(round_eq s .exact hE).2, hk]
  refine mul_le_mul_of_nonneg_right ?_ (zpow_pos two_pos _).le
  exact_mod_cast hle

/-- **A number cut to a multiple of a power of two.**  Nothing was cut off it if it is exact. -/
def IsCut (v : ℚ) (M : Nat) (E : Int) (accuracy : Accuracy) : Prop :=
  accuracy = .exact ∧ v = M * 2 ^ E ∨ M * 2 ^ E < v ∧ v < (M + 1) * 2 ^ E

namespace IsCut

variable {v : ℚ} {M B : Nat} {E : Int} {accuracy : Accuracy} (hcut : IsCut v M E accuracy)
include hcut

theorem le : M * 2 ^ E ≤ v := by
  rcases hcut with ⟨-, rfl⟩ | ⟨hlow, -⟩
  · exact le_rfl
  · exact hlow.le

theorem lt : v < (M + 1) * 2 ^ E := by
  rcases hcut with ⟨-, rfl⟩ | ⟨-, hhigh⟩
  · exact mul_lt_mul_of_pos_right (lt_add_one _) (zpow_pos two_pos E)
  · exact hhigh

variable (s : Sign) (hE : E ≤ unitExponent M E)
include hE

/-- **Rounding does not carry a number past a whole number of its units,** upwards. -/
theorem size_round_le (h : v ≤ B * 2 ^ unitExponent M E) :
    size (roundWithAccuracy double s M E accuracy) ≤ B * 2 ^ unitExponent M E := by
  have hpos : (0 : ℚ) < 2 ^ unitExponent M E := zpow_pos two_pos _
  rcases hcut with ⟨rfl, rfl⟩ | ⟨hlow, -⟩
  · exact size_round_le_units s hE (by linarith)
  · obtain ⟨k, -, hk, hunit, -⟩ := exists_shifts hE le_rfl
    have hcast : (M : ℚ) < B * 2 ^ k := by
      have hlt := hlow.trans_le h
      rwa [hunit, ← mul_assoc, mul_lt_mul_iff_left₀ (zpow_pos two_pos E)] at hlt
    have hlt : M / 2 ^ k < B :=
      (Nat.div_lt_iff_lt_mul (by positivity)).mpr (by exact_mod_cast hcast)
    have hle : rounded M accuracy k ≤ B := (rounded_bounds M accuracy k).2.trans hlt
    rw [(round_eq s accuracy hE).2, hk]
    refine mul_le_mul_of_nonneg_right ?_ hpos.le
    exact_mod_cast hle

/-- **And not downwards,** whatever was cut off it. -/
theorem le_size_round (h : B * 2 ^ unitExponent M E ≤ v) :
    B * 2 ^ unitExponent M E ≤ size (roundWithAccuracy double s M E accuracy) := by
  obtain ⟨k, -, hk, hunit, -⟩ := exists_shifts hE le_rfl
  have hcast : B * 2 ^ k < (M : ℚ) + 1 := by
    have hlt := h.trans_lt hcut.lt
    rwa [hunit, ← mul_assoc, mul_lt_mul_iff_left₀ (zpow_pos two_pos E)] at hlt
  have hnat : B * 2 ^ k ≤ M := Nat.lt_succ_iff.mp (by exact_mod_cast hcast)
  have hdiv : B ≤ M / 2 ^ k := (Nat.le_div_iff_mul_le (by positivity)).mpr hnat
  rw [(round_eq s accuracy hE).2, hk]
  refine mul_le_mul_of_nonneg_right ?_ (zpow_pos two_pos _).le
  exact_mod_cast hdiv.trans (rounded_bounds M accuracy k).1

end IsCut

/-- The sign of a number is that of what it is rounded to. -/
theorem signed_round (s : Sign) (M : Nat) (E : Int) (accuracy : Accuracy) :
    signed (roundWithAccuracy double s M E accuracy) =
      factor s * size (roundWithAccuracy double s M E accuracy) := by
  rw [roundWithAccuracy]
  dsimp only
  split
  · exact (mul_zero _).symm
  · rfl

/-! ## Packing -/

/-- What is unpacked of the parts of a float. -/
theorem unpack_packComponents (s : Sign) {b m : Nat} (hb : b < 2047) (hm : m < 2 ^ 53)
    (hpos : 0 < m) (hfull : 2 ^ 52 ≤ m ∧ 0 < b ∨ m < 2 ^ 52 ∧ b = 0) :
    UnpackedFloat.unpack double
      (packComponents double s (BitVec.ofNat 11 b) (BitVec.ofNat 52 m)) =
        .finite s m (max (b : Int) 1 - 1075) hpos := by
  have hexponent : (BitVec.ofNat 11 b).toNat = b := by
    rw [BitVec.toNat_ofNat, Nat.mod_eq_of_lt (by omega)]
  have hones : BitVec.ofNat 11 b ≠ -1#11 := by
    intro h
    have hnat : b = 2047 := hexponent.symm.trans (congrArg BitVec.toNat h)
    omega
  have hbias : (double.exponentBias : Int) + (double.mantissaBitsWithoutImplicit : Int) = 1075 :=
    rfl
  have hsign : Sign.ofBitVec s.toBitVec = s := by cases s <;> rfl
  simp only [UnpackedFloat.unpack, unpackSign_packComponents, unpackExponent_packComponents,
    unpackMantissa_packComponents, hsign, hexponent, hbias]
  rw [if_neg hones]
  rcases hfull with ⟨hm52, hb0⟩ | ⟨hm52, rfl⟩
  · have hzero : BitVec.ofNat 11 b ≠ 0#11 := by
      intro h
      have hnat : b = 0 := hexponent.symm.trans (congrArg BitVec.toNat h)
      omega
    have hmantissa : (1#1 ++ BitVec.ofNat 52 m).toNat = m := by
      rw [toNat_one_append, BitVec.toNat_ofNat]
      omega
    have hmax : max (b : Int) 1 = b := by omega
    rw [if_neg hzero]
    simp only [hmantissa, hmax]
  · have hmantissa : (BitVec.ofNat 52 m).toNat = m := by
      rw [BitVec.toNat_ofNat, Nat.mod_eq_of_lt hm52]
    have hne : BitVec.ofNat 52 m ≠ 0#52 := by
      intro h
      have hnat : m = 0 := hmantissa.symm.trans (congrArg BitVec.toNat h)
      omega
    rw [if_pos rfl, dif_neg hne]
    simp only [hmantissa]
    rfl

theorem pack_finite (s : Sign) {m b : Nat} {e : Int} (hpos : 0 < m) (hb : (b : Int) = e + 1075) :
    UnpackedFloat.pack double (.finite s m e hpos) =
      if 2 ^ 11 ≤ b + 1 then packedInfinity double s
      else if m.log2 + 1 = 53 then packComponents double s (BitVec.ofNat 11 b) (BitVec.ofNat 52 m)
      else packComponents double s (BitVec.ofNat 11 0) (BitVec.ofNat 52 m) := by
  have hbiased :
      (e + (double.exponentBias : Int) + (double.mantissaBitsWithoutImplicit : Int)).toNat = b := by
    have hbias : (double.exponentBias : Int) = 1023 := rfl
    have hbits : (double.mantissaBitsWithoutImplicit : Int) = 52 := rfl
    omega
  simp only [UnpackedFloat.pack, hbiased]
  rfl

/-- The exponent of a float is small if the float is. -/
theorem exponent_lt {m : Nat} {e : Int} (hm : 2 ^ 52 ≤ m) (h : (m : ℚ) * 2 ^ e < 2 ^ (1024 : ℤ)) :
    e < 972 := by
  by_contra hlarge
  have hpower : (2 : ℚ) ^ (972 : ℤ) ≤ 2 ^ e := zpow_le_zpow_right₀ one_le_two (by omega)
  have hmantissa : (2 : ℚ) ^ (52 : ℤ) ≤ m := by exact_mod_cast hm
  have hmul : (2 : ℚ) ^ (52 : ℤ) * 2 ^ (972 : ℤ) ≤ m * 2 ^ e :=
    mul_le_mul hmantissa hpower (zpow_pos two_pos _).le (Nat.cast_nonneg m)
  have hsum : (2 : ℚ) ^ (1024 : ℤ) = 2 ^ (52 : ℤ) * 2 ^ (972 : ℤ) := zpow_add₀ two_ne_zero 52 972
  rw [hsum] at h
  exact absurd h (not_lt.mpr hmul)

/-- A float with an exponent in range is packed as it is. -/
theorem unpack_pack_finite {s : Sign} {m : Nat} {e : Int} {hpos : 0 < m}
    (hu : IsCanonical (.finite s m e hpos)) (hlt : e < 972) :
    (pack (.finite s m e hpos)).unpack = .finite s m e hpos := by
  obtain ⟨hm, he, hfull⟩ := hu
  obtain ⟨b, hb⟩ : ∃ b : Nat, (b : Int) = e + 1075 := ⟨(e + 1075).toNat, by omega⟩
  have hpack := pack_finite s hpos hb
  rcases Nat.lt_or_ge m (2 ^ 52) with hm52 | hm52
  · obtain rfl : e = -1074 := hfull.resolve_left (by omega)
    have h := unpack_packComponents s (b := 0) (by norm_num) hm hpos (.inr ⟨hm52, rfl⟩)
    have hlog : m.log2 < 52 := (Nat.log2_lt (by omega)).mpr hm52
    rw [if_neg (by omega), if_neg (by omega)] at hpack
    exact (congrArg (UnpackedFloat.unpack double) hpack).trans h
  · have h := unpack_packComponents s (b := b) (by omega) hm hpos (.inl ⟨hm52, by omega⟩)
    have hlog : m.log2 = 52 := (Nat.log2_eq_iff (by omega)).mpr ⟨hm52, hm⟩
    have hexponent : max (b : Int) 1 - 1075 = e := by omega
    rw [if_neg (by omega), if_pos (by omega)] at hpack
    rw [hexponent] at h
    exact (congrArg (UnpackedFloat.unpack double) hpack).trans h

theorem unpack_pack_zero (s : Sign) : (pack (.zero s)).unpack = .zero s := by cases s <;> rfl

/-- **A float that is not too large** is packed as it is. -/
theorem unpack_pack {u : UnpackedFloat} (hu : IsCanonical u) (hsize : size u < 2 ^ (1024 : ℤ)) :
    (pack u).unpack = u := by
  cases u with
  | notANumber => cases hu
  | infinity s => cases hu
  | zero s => exact unpack_pack_zero s
  | finite s m e hpos =>
    have hlt : e < 972 := by
      rcases hu.2.2 with hm | he
      · exact exponent_lt hm hsize
      · omega
    exact unpack_pack_finite hu hlt

/-- A float that is too large becomes infinite when it is packed. -/
theorem isFinite_or_isInf_unpack_pack {u : UnpackedFloat} (hu : IsCanonical u) :
    (pack u).unpack.isFinite = true ∨ (pack u).unpack.isInf = true := by
  cases u with
  | notANumber => cases hu
  | infinity s => cases hu
  | zero s =>
    rw [unpack_pack_zero]
    exact .inl rfl
  | finite s m e hpos =>
    by_cases hlt : e < 972
    · rw [unpack_pack_finite hu hlt]
      exact .inl rfl
    · obtain ⟨b, hb⟩ : ∃ b : Nat, (b : Int) = e + 1075 := ⟨(e + 1075).toNat, by omega⟩
      have hpack := pack_finite s hpos hb
      rw [if_pos (by omega)] at hpack
      have hunpack : (pack (.finite s m e hpos)).unpack =
          UnpackedFloat.unpack double (packedInfinity double s) :=
        congrArg (UnpackedFloat.unpack double) hpack
      rw [hunpack]
      refine .inr ?_
      cases s <;> rfl

end Fleet.Rounding
