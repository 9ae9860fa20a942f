import Fleet.Proofs.Number.Magnitude
import Fleet.Json.Numeral

/-!
# Whole numbers and powers of ten as floats

A product of two floats is infinite only if the exact product is out of range.  The bound on what a
rounding adds is a whole unit in the last place, which is twice what it can add and enough here.
Main statement: `isFinite_mul_power`, on whole numbers times powers of ten.
-/

namespace Fleet.Rounding

open Float.Model Float.Model.UnpackedFloat

/-! ## What a rounding adds -/

/-- What a rounding multiplies a number by at most. -/
def margin : ℚ := 1 + 1 / 2 ^ 52

theorem one_le_margin : 1 ≤ margin := by
  rw [margin]
  norm_num

theorem margin_nonneg : 0 ≤ margin := zero_le_one.trans one_le_margin

/-- **A number that is not tiny** is rounded to at most this. -/
theorem size_round_le_margin (s : Sign) {M : Nat} {E : Int} (hE : E ≤ unitExponent M E)
    (h : (2 : ℚ) ^ (-1022 : ℤ) ≤ M * 2 ^ E) :
    size (roundWithAccuracy double s M E .exact) ≤ M * 2 ^ E * margin := by
  obtain ⟨k, -, hk, hunit, -⟩ := exists_shifts hE le_rfl
  have hlog : -1022 < (M.log2 : Int) + E + 1 :=
    (zpow_lt_zpow_iff_right₀ (one_lt_two (α := ℚ))).mp (h.trans_lt (lt_two_zpow_log2 M E))
  have hfull : 2 ^ 52 ≤ M / 2 ^ k := by
    rw [← hk]
    exact le_div hE (by omega)
  have hrounded := (rounded_bounds M .exact k).2
  have hone : (1 : ℚ) ≤ (M / 2 ^ k : ℕ) * (1 / 2 ^ 52) := by
    have hcast : (2 : ℚ) ^ 52 ≤ (M / 2 ^ k : ℕ) := by exact_mod_cast hfull
    rw [mul_one_div, le_div_iff₀ (by positivity), one_mul]
    exact hcast
  have hmargin : (rounded M .exact k : ℚ) ≤ (M / 2 ^ k : ℕ) * margin := by
    have hcast : (rounded M .exact k : ℚ) ≤ (M / 2 ^ k : ℕ) + 1 := by exact_mod_cast hrounded
    rw [margin, mul_add, mul_one]
    exact hcast.trans (add_le_add_right hone _)
  have hfloor : ((M / 2 ^ k : ℕ) : ℚ) * 2 ^ k ≤ M := by
    exact_mod_cast Nat.div_mul_le_self M (2 ^ k)
  rw [(round_eq s .exact hE).2, hk, hunit]
  calc (rounded M .exact k : ℚ) * (2 ^ k * 2 ^ E)
      ≤ (M / 2 ^ k : ℕ) * margin * (2 ^ k * 2 ^ E) :=
        mul_le_mul_of_nonneg_right hmargin (mul_nonneg (by positivity) (zpow_pos two_pos E).le)
    _ = (M / 2 ^ k : ℕ) * 2 ^ k * (2 ^ E * margin) := by ring
    _ ≤ M * (2 ^ E * margin) :=
        mul_le_mul_of_nonneg_right hfloor (mul_nonneg (zpow_pos two_pos E).le margin_nonneg)
    _ = M * 2 ^ E * margin := (mul_assoc _ _ _).symm

/-! ## Whole numbers -/

/-- **A whole number as a float.** -/
theorem approximates_toFloat {d : Nat} (hlt : d < 2 ^ 64) :
    Approximates (UInt64.ofNat d).toFloat d ∧
      (0 < d → magnitude (UInt64.ofNat d).toFloat ≤ d * margin) := by
  have hmodel : (UInt64.ofNat d).toFloat.toModel =
      pack (UnpackedFloat.normalize double d 0 .positive) := by
    have hd : (UInt64.ofNat d).toNat = d := by
      rw [UInt64.toNat_ofNat', Nat.mod_eq_of_lt hlt]
    show pack (UnpackedFloat.normalize double ((UInt64.ofNat d).toNat : Int) 0 .positive) = _
    rw [hd]
  have hvalue : (((d : Int).natAbs : ℕ) : ℚ) * 2 ^ (0 : ℤ) = d := by
    rw [Int.natAbs_natCast, zpow_zero, mul_one]
  have hrounds := (normalize_spec d 0).1
  rw [hvalue] at hrounds
  have hsmall : (d : ℚ) ≤ 2 ^ (64 : ℤ) := by exact_mod_cast hlt.le
  have htop : (d : ℚ) ≤ top := hsmall.trans (two_zpow_le_top (by norm_num))
  have hpacked := hrounds.pack htop
  refine ⟨by rwa [Approximates, hmodel], fun hpos => ?_⟩
  have hnormalize : UnpackedFloat.normalize double d 0 .positive =
      UnpackedFloat.round double .positive d 0 := by
    have hcompare : compare (d : Int) 0 = .gt := Int.compare_eq_gt.mpr (by omega)
    rw [UnpackedFloat.normalize, hcompare]
    rfl
  obtain ⟨k, hround, hE, hlong⟩ := exists_round .positive hpos 0
  have hone : (1 : ℚ) ≤ d := by exact_mod_cast hpos
  have hexact : ((d * 2 ^ k : ℕ) : ℚ) * 2 ^ ((0 : ℤ) - k) = d := by rw [hlong, zpow_zero, mul_one]
  have hmargin := size_round_le_margin .positive hE (by
    rw [hexact]
    exact hone.trans' (zpow_le_one_of_nonpos₀ one_le_two (by norm_num)))
  have hin : size (UnpackedFloat.normalize double d 0 .positive) < 2 ^ (1024 : ℤ) :=
    hrounds.size_lt htop
  rw [magnitude, hmodel, unpack_pack hrounds.isCanonical hin, hnormalize, hround]
  rwa [hexact] at hmargin

/-! ## Powers of ten -/

/-- A power of ten that has 53 bits is a float as it is. -/
def isExactPower (n : Nat) : UnpackedFloat → Bool
  | .finite _ m e _ => -52 ≤ e && m * 2 ^ (e + 52).toNat = 10 ^ n * 2 ^ 52
  | _ => false

/-- The check says what it is meant to say. -/
theorem size_of_isExactPower {n : Nat} {u : UnpackedFloat} (h : isExactPower n u = true) :
    u.isFinite = true ∧ size u = 10 ^ n := by
  cases u with
  | notANumber => cases h
  | infinity s => cases h
  | zero s => cases h
  | finite s m e hpos =>
    simp only [isExactPower, Bool.and_eq_true, decide_eq_true_eq] at h
    obtain ⟨he, hvalue⟩ := h
    obtain ⟨j, rfl⟩ : ∃ j : Nat, e = j - 52 := ⟨(e + 52).toNat, by omega⟩
    rw [show ((j : Int) - 52 + 52).toNat = j by omega] at hvalue
    have hcast : (m : ℚ) * 2 ^ j = 10 ^ n * 2 ^ 52 := by exact_mod_cast hvalue
    have hpower : (2 : ℚ) ^ ((j : Int) - 52) = 2 ^ j / 2 ^ 52 := by
      rw [zpow_sub₀ two_ne_zero, zpow_natCast]
      rfl
    refine ⟨rfl, ?_⟩
    rw [size, hpower, mul_div_assoc', hcast, mul_div_cancel_right₀ _ (by positivity)]

/-- The powers of ten with at most 53 bits, but for trailing zeros. -/
theorem isExactPower_power : ∀ n < 23, isExactPower n (Numeral.power n).toModel.unpack = true := by
  decide +kernel

/-- The largest power of ten is in range. -/
theorem maxPower_lt : (10 : ℚ) ^ 308 * margin < 2 ^ (1024 : ℤ) := by
  have hnat : 10 ^ 308 * (2 ^ 52 + 1) < 2 ^ 52 * 2 ^ 972 * 2 ^ 52 := by decide +kernel
  have hcast : (10 : ℚ) ^ 308 * (2 ^ 52 + 1) < 2 ^ 52 * 2 ^ 972 * 2 ^ 52 := by
    have hrational := (Nat.cast_lt (α := ℚ)).mpr hnat
    simpa only [Nat.cast_mul, Nat.cast_add, Nat.cast_pow, Nat.cast_ofNat, Nat.cast_one]
      using hrational
  have hpower : (2 : ℚ) ^ (1024 : ℤ) = 2 ^ 52 * 2 ^ 972 := zpow_add₀ two_ne_zero 52 972
  rw [hpower, ← mul_lt_mul_iff_left₀ (show (0 : ℚ) < 2 ^ 52 by positivity)]
  refine lt_of_eq_of_lt ?_ hcast
  rw [margin]
  generalize (10 : ℚ) ^ 308 = x
  ring

/-- A numeral without a negative exponent is rounded from its exact value, which is widened for
that. -/
theorem ofScientific_eq {m n : Nat} (hm : m ≠ 0) (hn : n ≤ 2 ^ 11) :
    UnpackedFloat.ofScientific double m (n : Int) =
      roundWithAccuracy double .positive (2 ^ 53 * (m * 10 ^ n)) (-53 + 0) .exact := by
  have hlong : m <<< 53 * 10 ^ n = 2 ^ 53 * (m * 10 ^ n) := by
    rw [Nat.shiftLeft_eq, mul_comm m, mul_assoc]
  rw [UnpackedFloat.ofScientific, dif_neg hm, if_neg (by show ¬(n : Int) > 2 ^ 11; omega),
    if_neg (by show ¬(n : Int) < -(2 ^ 11 + (Nat.log2 m : Int)); omega),
    if_pos (Int.natCast_nonneg n), ← hlong]
  rfl

theorem widened_value (M : Nat) : ((2 ^ 53 * M : ℕ) : ℚ) * 2 ^ (-53 + 0 : ℤ) = M := by
  have hone : (2 : ℚ) ^ 53 * 2 ^ (-53 + 0 : ℤ) = 1 := by norm_num
  rw [Nat.cast_mul, Nat.cast_pow, Nat.cast_ofNat, mul_right_comm, hone, one_mul]

theorem widened_le {M : Nat} (hM : M ≠ 0) : -53 + 0 ≤ unitExponent (2 ^ 53 * M) (-53 + 0) :=
  le_unitExponent (.inl (by omega))

/-- A power of ten that is made by rounding. -/
theorem toModel_power {n : Nat} (hlow : 22 < n) (hhigh : n ≤ 308) :
    (Numeral.power n).toModel =
      pack (roundWithAccuracy double .positive (2 ^ 53 * (1 * 10 ^ n)) (-53 + 0) .exact) := by
  rw [← ofScientific_eq one_ne_zero (by omega), Numeral.power, Float.ofScientific,
    dif_neg (by omega)]
  rfl

/-- **A power of ten as a float.** -/
theorem approximates_power {n : Nat} (hn : n ≤ 308) :
    Approximates (Numeral.power n) (10 ^ n) ∧ magnitude (Numeral.power n) ≤ 10 ^ n * margin := by
  by_cases hsmall : n ≤ 22
  · obtain ⟨hfinite, hsize⟩ :=
      size_of_isExactPower (isExactPower_power n (Nat.lt_succ_of_le hsmall))
    have hrounds := (isCanonical_unpack hfinite).1.rounds
    rw [hsize] at hrounds
    refine ⟨hrounds, ?_⟩
    rw [magnitude, hsize]
    exact le_mul_of_one_le_right (by positivity) one_le_margin
  · have hE := widened_le (M := 1 * 10 ^ n) (by positivity)
    have hvalue : ((2 ^ 53 * (1 * 10 ^ n) : ℕ) : ℚ) * 2 ^ (-53 + 0 : ℤ) = 10 ^ n := by
      rw [widened_value, one_mul, Nat.cast_pow, Nat.cast_ofNat]
    have hrounds := rounds_round .positive hE
    have hmargin := size_round_le_margin .positive hE (by
      rw [hvalue]
      exact (zpow_le_one_of_nonpos₀ one_le_two (by norm_num)).trans (one_le_pow₀ (by norm_num)))
    rw [hvalue] at hrounds hmargin
    have hten : (10 : ℚ) ^ n ≤ 10 ^ 308 := pow_le_pow_right₀ (by norm_num) hn
    have hin := hmargin.trans_lt
      ((mul_le_mul_of_nonneg_right hten margin_nonneg).trans_lt maxPower_lt)
    rw [Approximates, magnitude, toModel_power (by omega) hn,
      unpack_pack hrounds.isCanonical hin]
    exact ⟨hrounds, hmargin⟩

/-! ## Numbers of things -/

/-- **A number of things as a float.** -/
theorem approximates_ofNat {n : Nat} (hn : n ≤ 2 ^ 64) : Approximates (Float.ofNat n) n := by
  have htop : (n : ℚ) ≤ top := by
    have hcast : (n : ℚ) ≤ 2 ^ (64 : ℤ) := by exact_mod_cast hn
    exact hcast.trans (two_zpow_le_top (by norm_num))
  have hofNat : Float.ofNat n = Float.ofScientific n false 0 := rfl
  rw [hofNat, Float.ofScientific]
  by_cases hsmall : n < 2 ^ 53
  · rw [dif_pos ⟨hsmall, Nat.zero_le _⟩]
    obtain ⟨hfinite, hsize⟩ := size_of_isExactPower (n := 0)
      (u := (Float.exactlyRepresentablePowersOfTen[0]).toModel.unpack) (by decide +kernel)
    have hnumber := (approximates_toFloat (d := n) (hsmall.trans (by norm_num))).1
    have hrounds := rounds_mul hnumber.isCanonical (isCanonical_unpack hfinite).1
    rw [hsize, pow_zero, mul_one] at hrounds
    exact (hnumber.trans hrounds).pack htop
  · rw [dif_neg fun h => hsmall h.1]
    show Rounds (Float.Model.pack (UnpackedFloat.ofScientific double n 0)).unpack n
    have hscientific := ofScientific_eq (m := n) (n := 0) (by omega) (Nat.zero_le _)
    rw [pow_zero, mul_one] at hscientific
    have hrounds := rounds_round .positive (widened_le (M := n) (by omega))
    rw [widened_value] at hrounds
    exact hscientific ▸ hrounds.pack htop

/-! ## Products -/

theorem within_zero_mul_power {n : Nat} (hn : n ≤ 308) :
    Within ((UInt64.ofNat 0).toFloat * Numeral.power n) (2 ^ (0 : ℤ)) := by
  have hzero : Within (UInt64.ofNat 0).toFloat (2 ^ (-1074 : ℤ)) :=
    (approximates_toFloat (by norm_num)).1.within le_rfl (by
      rw [Nat.cast_zero]
      exact (zpow_pos two_pos _).le)
  have hpower : (Numeral.power n).isFinite = true :=
    isFinite_of_isCanonical (approximates_power hn).1.isCanonical
  have hlarge : Within (Numeral.power n) (2 ^ (1024 : ℤ)) :=
    ⟨hpower, (isCanonical_unpack hpower).2.le⟩
  refine hzero.mul hlarge (by norm_num) (by norm_num) ?_
  rw [← zpow_add₀ two_ne_zero]
  exact zpow_le_zpow_right₀ one_le_two (by norm_num)

/-- **Whole numbers times powers of ten.** -/
theorem isFinite_mul_power {d n : Nat} (hd : d < 2 ^ 64) (hn : n ≤ 308)
    (hlt : (d : ℚ) * 10 ^ n * margin ^ 3 < 2 ^ (1024 : ℤ)) :
    ((UInt64.ofNat d).toFloat * Numeral.power n).isFinite = true := by
  obtain ⟨hnumber, hnumber'⟩ := approximates_toFloat hd
  obtain ⟨hpower, hpower'⟩ := approximates_power hn
  have hten : (2 : ℚ) ^ (0 : ℤ) ≤ 10 ^ n := one_le_pow₀ (by norm_num)
  have hpower₁ := hpower.lower 0 (by norm_num) hten
  rcases Nat.eq_zero_or_pos d with rfl | hpos
  · exact (within_zero_mul_power hn).isFinite
  · have hone : (2 : ℚ) ^ (0 : ℤ) ≤ d := by
      rw [zpow_zero]
      exact_mod_cast hpos
    have hnumber₁ := hnumber.lower 0 (by norm_num) hone
    have hproduct : (2 : ℚ) ^ (-1022 : ℤ) ≤
        magnitude (UInt64.ofNat d).toFloat * magnitude (Numeral.power n) := by
      calc (2 : ℚ) ^ (-1022 : ℤ) ≤ 1 := zpow_le_one_of_nonpos₀ one_le_two (by norm_num)
        _ = 2 ^ (0 : ℤ) * 2 ^ (0 : ℤ) := by norm_num
        _ ≤ magnitude (UInt64.ofNat d).toFloat * magnitude (Numeral.power n) :=
          mul_le_mul hnumber₁ hpower₁ (by positivity) (magnitude_nonneg _)
    obtain ⟨s, M, E, hE, hvalue, -, hmul⟩ := exists_mul hnumber.isCanonical hpower.isCanonical
      (hnumber₁.trans_lt' (by norm_num)) (hpower₁.trans_lt' (by norm_num))
    have hmargin := size_round_le_margin s hE (hproduct.trans_eq hvalue.symm)
    rw [← hmul, hvalue] at hmargin
    have hin : size (UnpackedFloat.mul double (UInt64.ofNat d).toFloat.toModel.unpack
        (Numeral.power n).toModel.unpack) < 2 ^ (1024 : ℤ) := by
      refine hmargin.trans_lt (lt_of_le_of_lt ?_ hlt)
      calc magnitude (UInt64.ofNat d).toFloat * magnitude (Numeral.power n) * margin
          ≤ (d * margin) * (10 ^ n * margin) * margin :=
            mul_le_mul_of_nonneg_right (mul_le_mul (hnumber' hpos) hpower' (magnitude_nonneg _)
              (mul_nonneg (Nat.cast_nonneg d) margin_nonneg)) margin_nonneg
        _ = d * 10 ^ n * margin ^ 3 := by ring
    have hrounds := rounds_mul hnumber.isCanonical hpower.isCanonical
    exact isFinite_of_isCanonical (hrounds.pack_of_lt hin).isCanonical

end Fleet.Rounding
