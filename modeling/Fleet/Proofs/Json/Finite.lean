import Fleet.Proofs.Number.Product
import Fleet.Proofs.Number.Shortest
import Fleet.Proofs.Number.Value
import Fleet.Json.Record

/-!
# Floats in JSON texts are read back

A float that is finite has a numeral, and the numeral is read as a float, if not always as the same
one: `Wire.exists_ofJson?_float`.  The few numbers next to the largest float are looked at one by
one; all others leave room for what the reader rounds.
-/

namespace Fleet

open Rounding

namespace Decimal

theorem ofDigitsAfter_append (n : Nat) (ds es : List (Fin 10)) :
    ofDigitsAfter n (ds ++ es) = ofDigitsAfter (ofDigitsAfter n ds) es := List.foldl_append

/-- Digits that follow a number move it to the left. -/
theorem le_ofDigitsAfter (n : Nat) (ds : List (Fin 10)) :
    n * 10 ^ ds.length ≤ ofDigitsAfter n ds := by
  induction ds generalizing n with
  | nil => exact (mul_one n).le
  | cons d ds ih =>
    have hle := ih (10 * n + d.val)
    calc n * 10 ^ (ds.length + 1) = 10 * n * 10 ^ ds.length := by ring
      _ ≤ (10 * n + d.val) * 10 ^ ds.length := Nat.mul_le_mul_right _ (Nat.le_add_right _ _)
      _ ≤ ofDigitsAfter n (d :: ds) := hle

theorem ofDigitsAfter_zeros (k : Nat) : ofDigitsAfter 0 (List.replicate k 0) = 0 := by
  induction k with
  | zero => rfl
  | succ k ih => exact ih

theorem ofDigitsAfter_lt (n : Nat) (ds : List (Fin 10)) :
    ofDigitsAfter n ds < (n + 1) * 10 ^ ds.length := by
  induction ds generalizing n with
  | nil => exact Nat.lt_of_lt_of_eq (Nat.lt_succ_self n) (mul_one _).symm
  | cons d ds ih =>
    calc ofDigitsAfter n (d :: ds) < (10 * n + d.val + 1) * 10 ^ ds.length := ih _
      _ ≤ (10 * (n + 1)) * 10 ^ ds.length := Nat.mul_le_mul_right _ (by omega)
      _ = (n + 1) * 10 ^ (ds.length + 1) := by ring

theorem ofDigits_lt (ds : List (Fin 10)) : ofDigits ds < 10 ^ ds.length :=
  Nat.lt_of_lt_of_eq (ofDigitsAfter_lt 0 ds) (one_mul _)

theorem length_digitsOnto (n : Nat) (ds : List (Fin 10)) :
    ds.length < (digitsOnto n ds).length := by
  fun_induction digitsOnto n ds with
  | case1 n ds h => exact Nat.lt_succ_self _
  | case2 n ds h ih => exact Nat.lt_of_succ_lt ih

end Decimal

namespace Numeral

/-- The number that a numeral stands for, but for its sign. -/
def value (n : Numeral) : ℚ :=
  Decimal.ofDigitsAfter n.whole n.fraction * 10 ^ (n.exponent.getD 0 - n.fraction.length)

/-! ## What is read of a numeral -/

/-- Digits that do not fit are left out, which makes a number smaller. -/
theorem takeIn_le {n : Nat} (hn : n < digitBound) (e : Int) (ds : List (Fin 10)) :
    ((takeIn n e ds).1 : ℚ) * 10 ^ (takeIn n e ds).2 ≤
        Decimal.ofDigitsAfter n ds * 10 ^ (e - ds.length) ∧
      (takeIn n e ds).1 < digitBound := by
  induction ds generalizing n e with
  | nil => exact ⟨by simp [takeIn, Decimal.ofDigitsAfter], hn⟩
  | cons d ds ih =>
    rw [takeIn]
    split
    · rename_i hfits
      obtain ⟨hle, hlt⟩ := ih hfits (e - 1)
      refine ⟨hle.trans_eq ?_, hlt⟩
      have hexponent : e - 1 - (ds.length : Int) = e - ((d :: ds).length : Int) := by
        rw [List.length_cons]
        omega
      rw [hexponent]
      rfl
    · refine ⟨?_, hn⟩
      have hle : ((n * 10 ^ (d :: ds).length : ℕ) : ℚ) ≤ Decimal.ofDigitsAfter n (d :: ds) := by
        exact_mod_cast Decimal.le_ofDigitsAfter n (d :: ds)
      have hpower : (10 : ℚ) ^ e = 10 ^ (d :: ds).length * 10 ^ (e - (d :: ds).length) := by
        rw [← zpow_natCast, ← zpow_add₀ (by norm_num)]
        congr 1
        omega
      rw [hpower, ← mul_assoc]
      refine mul_le_mul_of_nonneg_right ?_ (by positivity)
      rwa [Nat.cast_mul, Nat.cast_pow, Nat.cast_ofNat] at hle

/-- **What is read of a numeral is at most what it stands for,** if its whole part fits. -/
theorem significant_le {n : Numeral} (h : n.whole < digitBound) :
    (n.significant.1 : ℚ) * 10 ^ n.significant.2 ≤ n.value ∧ n.significant.1 < digitBound := by
  have hleading : leading n.whole = (n.whole, 0) := by rw [leading, if_pos h]
  have hsignificant : n.significant =
      ((takeIn n.whole 0 n.fraction).1, (takeIn n.whole 0 n.fraction).2 + n.exponent.getD 0) := by
    rw [significant, hleading]
    rfl
  obtain ⟨hle, hlt⟩ := takeIn_le h 0 n.fraction
  rw [hsignificant]
  refine ⟨?_, hlt⟩
  dsimp only
  rw [value, zpow_add₀ (by norm_num), ← mul_assoc, sub_eq_add_neg, add_comm (n.exponent.getD 0),
    zpow_add₀ (by norm_num), ← mul_assoc]
  rw [zero_sub] at hle
  exact mul_le_mul_of_nonneg_right hle (by positivity)

/-! ## Numerals of decimals -/

/-- The whole part of the numeral of a decimal is short. -/
theorem whole_ofDecimal_lt (negative : Bool) (d : Decimal) :
    (ofDecimal negative d).whole < digitBound := by
  have hlength := Decimal.length_digitsOnto d.significand []
  have hbound : 10 ^ 16 < digitBound := by norm_num [digitBound]
  unfold ofDecimal Decimal.digits at *
  generalize Decimal.digitsOnto d.significand [] = ds at hlength ⊢
  dsimp only
  split
  · rename_i h
    refine lt_of_lt_of_le ?_ hbound.le
    have htake := Decimal.ofDigits_lt (ds.take (ds.length - (-d.exponent).toNat))
    have hshort : (ds.take (ds.length - (-d.exponent).toNat)).length + d.exponent.toNat ≤ 16 := by
      obtain ⟨-, hgreatest⟩ := h
      rw [greatestPositional] at hgreatest
      rw [List.length_nil] at hlength
      rw [List.length_take]
      omega
    calc Decimal.ofDigits (ds.take (ds.length - (-d.exponent).toNat)) * 10 ^ d.exponent.toNat
        < 10 ^ (ds.take (ds.length - (-d.exponent).toNat)).length * 10 ^ d.exponent.toNat :=
          Nat.mul_lt_mul_of_pos_right htake (by positivity)
      _ = 10 ^ ((ds.take (ds.length - (-d.exponent).toNat)).length + d.exponent.toNat) :=
          (pow_add _ _ _).symm
      _ ≤ 10 ^ 16 := Nat.pow_le_pow_right (by norm_num) hshort
  · calc Decimal.ofDigits (ds.take 1) < 10 ^ (ds.take 1).length := Decimal.ofDigits_lt _
      _ ≤ 10 ^ 16 := Nat.pow_le_pow_right (by norm_num) (by rw [List.length_take]; omega)
      _ < digitBound := hbound

/-- **The numeral of a decimal stands for the same number.** -/
theorem value_ofDecimal (negative : Bool) (d : Decimal) :
    (ofDecimal negative d).value = d.value := by
  have hlength := Decimal.length_digitsOnto d.significand []
  have hdigits := Decimal.ofDigits_digits d.significand
  unfold ofDecimal
  rw [Decimal.digits] at *
  generalize Decimal.digitsOnto d.significand [] = ds at hlength hdigits ⊢
  have hsplit (n : Nat) : Decimal.ofDigitsAfter (Decimal.ofDigits (ds.take n)) (ds.drop n) =
      d.significand := by
    rw [Decimal.ofDigits, ← Decimal.ofDigitsAfter_append, List.take_append_drop]
    exact hdigits
  dsimp only
  split
  · by_cases hplaces : (-d.exponent).toNat = 0
    · -- all digits stand before the point, and a zero after it
      have hexponent : (d.exponent.toNat : Int) = d.exponent := Int.toNat_of_nonneg (by omega)
      have hwhole : Decimal.ofDigits (ds.take (ds.length - 0)) = d.significand := by
        rw [Nat.sub_zero, List.take_length]
        exact hdigits
      rw [hplaces, if_pos rfl, value, Decimal.value, hwhole]
      show ((10 * (d.significand * 10 ^ d.exponent.toNat) + 0 : ℕ) : ℚ) * 10 ^ (0 - 1 : ℤ) = _
      rw [← hexponent, zpow_natCast, Int.toNat_natCast]
      push_cast
      norm_num
      ring
    · have hpower : d.exponent.toNat = 0 := by omega
      have hvalue : Decimal.ofDigitsAfter (Decimal.ofDigits
          (ds.take (ds.length - (-d.exponent).toNat)) * 10 ^ d.exponent.toNat)
          (List.replicate ((-d.exponent).toNat - ds.length) 0 ++
            ds.drop (ds.length - (-d.exponent).toNat)) = d.significand := by
        rw [hpower, pow_zero, mul_one, Decimal.ofDigitsAfter_append]
        rcases Nat.le_total (-d.exponent).toNat ds.length with hle | hle
        · rw [Nat.sub_eq_zero_of_le hle]
          exact hsplit _
        · -- there are no digits before the point, and only zeros in front of the others
          rw [Nat.sub_eq_zero_of_le hle]
          have hzeros : Decimal.ofDigitsAfter (Decimal.ofDigits (ds.take 0))
              (List.replicate ((-d.exponent).toNat - ds.length) 0) = 0 :=
            Decimal.ofDigitsAfter_zeros _
          rw [hzeros]
          exact hdigits
      rw [if_neg hplaces, value, Decimal.value, hvalue, List.length_append, List.length_replicate,
        List.length_drop]
      congr 2
      show (0 : Int) - _ = _
      omega
  · rw [value, Decimal.value, hsplit, Option.getD_some, List.length_drop]
    congr 2
    rw [List.length_nil] at hlength
    omega

/-! ## Numerals that are read -/

/-- No float is as large as this power of ten. -/
theorem lt_power_of_tooLarge {e : Int} (he : 308 < e) : (2 : ℚ) ^ (1024 : ℤ) < 10 ^ e := by
  have hnat : 2 ^ 52 * 2 ^ 972 < 10 ^ 309 := by decide +kernel
  have hcast : (2 : ℚ) ^ 52 * 2 ^ 972 < 10 ^ 309 := by
    have hrational := (Nat.cast_lt (α := ℚ)).mpr hnat
    simpa only [Nat.cast_mul, Nat.cast_pow, Nat.cast_ofNat] using hrational
  have hpower : (2 : ℚ) ^ (1024 : ℤ) = 2 ^ 52 * 2 ^ 972 := zpow_add₀ two_ne_zero 52 972
  have hlarge : (10 : ℚ) ^ (309 : ℤ) ≤ 10 ^ e := zpow_le_zpow_right₀ (by norm_num) (by omega)
  rw [hpower]
  exact hcast.trans_le hlarge

/-- **A numeral that is not too large is read.** -/
theorem exists_float? {n : Numeral} (hwhole : n.whole < digitBound)
    (hvalue : n.value * margin ^ 3 < 2 ^ (1024 : ℤ)) : ∃ y, n.float? = some y := by
  obtain ⟨hle, hlt⟩ := significant_le hwhole
  have hscale : ∃ y, scale? (UInt64.ofNat n.significant.1).toFloat n.significant.2 = some y := by
    generalize n.significant = read at hle hlt
    obtain ⟨d, e⟩ := read
    dsimp only at hle hlt ⊢
    unfold scale?
    split
    · exact ⟨_, rfl⟩
    rename_i hnonneg
    obtain ⟨k, rfl⟩ := Int.eq_ofNat_of_zero_le (Int.not_lt.mp hnonneg)
    split
    · rename_i hk
      have hmargin : (0 : ℚ) ≤ margin ^ 3 := pow_nonneg margin_nonneg 3
      have hproduct : ((UInt64.ofNat d).toFloat * power k).isFinite = true := by
        refine Rounding.isFinite_mul_power hlt hk ?_
        rw [zpow_natCast] at hle
        exact (mul_le_mul_of_nonneg_right hle hmargin).trans_lt hvalue
      refine ⟨(UInt64.ofNat d).toFloat * power k, ?_⟩
      rw [Int.natAbs_natCast]
      dsimp only
      rw [if_neg (Rounding.not_isInf_of_isFinite hproduct)]
    · rename_i hk
      -- a number that is not zero would be too large
      obtain rfl : d = 0 := by
        by_contra hd
        have hone : (1 : ℚ) ≤ d := by exact_mod_cast Nat.one_le_iff_ne_zero.mpr hd
        have hpower : (10 : ℚ) ^ (k : ℤ) ≤ n.value * margin ^ 3 :=
          calc (10 : ℚ) ^ (k : ℤ) ≤ d * 10 ^ (k : ℤ) := le_mul_of_one_le_left (by positivity) hone
            _ ≤ n.value := hle
            _ ≤ n.value * margin ^ 3 :=
              le_mul_of_one_le_right (hle.trans' (by positivity)) (one_le_pow₀ one_le_margin)
        have hlarge := lt_power_of_tooLarge (e := k) (by
          rw [maxPower] at hk
          omega)
        exact absurd hvalue (not_lt.mpr (hlarge.le.trans hpower))
      exact ⟨_, if_pos (by decide +kernel)⟩
  obtain ⟨y, hy⟩ := hscale
  refine ⟨if n.negative then -y else y, ?_⟩
  unfold float?
  dsimp only
  rw [hy]
  rfl

/-! ## What is read is finite -/

theorem leading_lt (n : Nat) : (leading n).1 < digitBound := by
  fun_induction leading n with
  | case1 n h => exact h
  | case2 n h kept dropped hrest ih => rwa [hrest] at ih

theorem significant_lt (n : Numeral) : n.significant.1 < digitBound :=
  (takeIn_le (leading_lt n.whole) _ n.fraction).2

theorem within_toFloat {d : Nat} (hd : d < digitBound) :
    Within (UInt64.ofNat d).toFloat (2 ^ (64 : ℤ)) :=
  (approximates_toFloat hd).1.within (by norm_num) (by exact_mod_cast hd.le)

theorem approximates_maxPower {n : Nat} (hn : n ≤ maxPower) :
    Approximates (power n) (10 ^ n) := (approximates_power hn).1

/-- Dividing by a power of ten does not make a number larger. -/
theorem Within.divPower {x : Float} (hx : Within x (2 ^ (64 : ℤ))) {n : Nat} (hn : n ≤ maxPower) :
    Within (x / power n) (2 ^ (64 : ℤ)) := by
  have hpower := approximates_maxPower hn
  have hone : (1 : ℚ) ≤ magnitude (power n) := by
    have hle : (2 : ℚ) ^ (0 : ℤ) ≤ 10 ^ n := one_le_pow₀ (by norm_num)
    exact hpower.lower 0 (by norm_num) hle
  exact hx.div (isFinite_of_isCanonical hpower.isCanonical) one_pos hone (by norm_num)
    (by norm_num) (mul_one _).ge

theorem within_divide {x : Float} {n : Nat} (hx : Within x (2 ^ (64 : ℤ))) :
    Within (divide x n) (2 ^ (64 : ℤ)) := by
  fun_induction divide x n with
  | case1 x n h => exact Within.divPower hx h
  | case2 x n h hzero => exact hx
  | case3 x n h hzero ih => exact ih (Within.divPower hx le_rfl)

/-- **What is read is finite.** -/
theorem isFinite_of_scale? {x y : Float} {e : Int} (hx : Within x (2 ^ (64 : ℤ)))
    (h : scale? x e = some y) : y.isFinite = true := by
  unfold scale? at h
  split at h
  · cases h
    exact (within_divide hx).isFinite
  split at h
  · rename_i hn
    dsimp only at h
    split at h
    · cases h
    · rename_i hin
      cases h
      have hproduct := rounds_mul hx.isCanonical (approximates_maxPower hn).isCanonical
      exact (isFinite_or_isInf_unpack_pack hproduct.isCanonical).resolve_right hin
  · split at h
    · cases h
      exact hx.isFinite
    · cases h

theorem isFinite_of_float? {n : Numeral} {y : Float} (h : n.float? = some y) :
    y.isFinite = true := by
  obtain ⟨x, hx, rfl⟩ := Option.map_eq_some_iff.mp h
  have hfinite := isFinite_of_scale? (within_toFloat (significant_lt n)) hx
  split
  · have hwithin : Within x (magnitude x) := ⟨hfinite, le_rfl⟩
    exact hwithin.neg.isFinite
  · exact hfinite

/-- **A number that is not large** is not read as a large one. -/
theorem within_scale? {d : Nat} {e : Int} {y : Float} (hd : d < digitBound)
    (hvalue : (d : ℚ) * 10 ^ e ≤ 2 ^ (9 : ℤ))
    (h : scale? (UInt64.ofNat d).toFloat e = some y) : Within y (2 ^ (64 : ℤ)) := by
  have hx := within_toFloat hd
  unfold scale? at h
  split at h
  · cases h
    exact within_divide hx
  rename_i hnonneg
  obtain ⟨k, rfl⟩ := Int.eq_ofNat_of_zero_le (Int.not_lt.mp hnonneg)
  rw [Int.natAbs_natCast] at h
  rw [zpow_natCast] at hvalue
  split at h
  · rename_i hk
    dsimp only at h
    split at h
    · cases h
    · cases h
      have hten : (1 : ℚ) ≤ 10 ^ k := one_le_pow₀ (by norm_num)
      have hpower := approximates_maxPower hk
      rcases Nat.eq_zero_or_pos d with rfl | hpos
      · exact (within_zero_mul_power hk).mono (zpow_le_zpow_right₀ one_le_two (by norm_num))
      · have hone : (1 : ℚ) ≤ d := by exact_mod_cast hpos
        have hd9 : (d : ℚ) ≤ 2 ^ (9 : ℤ) :=
          (le_mul_of_one_le_right (Nat.cast_nonneg d) hten).trans hvalue
        have hk9 : (10 : ℚ) ^ k ≤ 2 ^ (9 : ℤ) :=
          (le_mul_of_one_le_left (by positivity) hone).trans hvalue
        have hnumber := (approximates_toFloat hd).1.within (by norm_num) hd9
        refine hnumber.mul (hpower.within (by norm_num) hk9) (by norm_num) (by norm_num) ?_
        norm_num
  · split at h
    · cases h
      exact hx
    · cases h

theorem within_float? {n : Numeral} {y : Float} (hwhole : n.whole < digitBound)
    (hvalue : n.value ≤ 2 ^ (9 : ℤ)) (h : n.float? = some y) : Within y (2 ^ (64 : ℤ)) := by
  obtain ⟨hle, hlt⟩ := significant_le hwhole
  obtain ⟨x, hx, rfl⟩ := Option.map_eq_some_iff.mp h
  have hwithin := within_scale? hlt (hle.trans hvalue) hx
  split
  · exact hwithin.neg
  · exact hwithin

/-! ## Numerals of floats -/

/-- A number that leaves room for three roundings does so at each power of two. -/
theorem mul_margin_lt {x bound limit : ℚ} {q top : Int} (hx : x ≤ bound) (hbound : 0 ≤ bound)
    (hq : q ≤ top) (hroom : bound * margin ^ 3 < limit) :
    x * 2 ^ q * margin ^ 3 < limit * 2 ^ top := by
  have hmargin : 0 ≤ margin ^ 3 := pow_nonneg margin_nonneg 3
  have hpower : (2 : ℚ) ^ q ≤ 2 ^ top := zpow_le_zpow_right₀ one_le_two hq
  calc x * 2 ^ q * margin ^ 3 ≤ bound * 2 ^ top * margin ^ 3 :=
        mul_le_mul_of_nonneg_right (mul_le_mul hx hpower (by positivity) hbound) hmargin
    _ = bound * margin ^ 3 * 2 ^ top := mul_right_comm _ _ _
    _ < limit * 2 ^ top := mul_lt_mul_of_pos_right hroom (by positivity)

/-- All but the few floats next to the largest one leave room for three roundings. -/
theorem significand_margin_lt {m : Nat} {q : Int} (hm : m < 2 ^ 53) (hq : q ≤ 971)
    (htop : q = 971 → m + 8 ≤ 2 ^ 53) :
    (m + 1 / 2) * 2 ^ q * margin ^ 3 < (2 : ℚ) ^ (1024 : ℤ) := by
  rcases Int.lt_or_eq_of_le hq with hlt | rfl
  · have hsignificand : (m : ℚ) + 1 / 2 ≤ 2 ^ 53 := by
      have hcast : (m : ℚ) + 1 ≤ 2 ^ 53 := by exact_mod_cast hm
      linarith
    have hroom : (2 : ℚ) ^ 53 * margin ^ 3 < 2 ^ 54 := by
      rw [margin]
      norm_num
    calc ((m : ℚ) + 1 / 2) * 2 ^ q * margin ^ 3 < 2 ^ 54 * 2 ^ (970 : ℤ) :=
          mul_margin_lt hsignificand (by positivity) (by omega) hroom
      _ = 2 ^ (1024 : ℤ) := (zpow_add₀ two_ne_zero 54 970).symm
  · have hsignificand : (m : ℚ) + 1 / 2 ≤ 2 ^ 53 - 15 / 2 := by
      have hcast : (m : ℚ) + 8 ≤ 2 ^ 53 := by exact_mod_cast htop rfl
      linarith
    have hroom : ((2 : ℚ) ^ 53 - 15 / 2) * margin ^ 3 < 2 ^ 53 := by
      rw [margin]
      norm_num
    calc ((m : ℚ) + 1 / 2) * 2 ^ (971 : ℤ) * margin ^ 3 < 2 ^ 53 * 2 ^ (971 : ℤ) :=
          mul_margin_lt hsignificand (by norm_num) le_rfl hroom
      _ = 2 ^ (1024 : ℤ) := (zpow_add₀ two_ne_zero 53 971).symm

/-- The few floats next to the largest one are read, too. -/
theorem isSome_float?_top : ∀ i < 7, ∀ negative,
    (ofDecimal negative (Decimal.shortest .toEven (2 ^ 53 - 7 + i) 971)).float?.isSome = true := by
  decide +kernel

/-- **The numeral of a float is read as a float.** -/
theorem exists_float?_shortest (negative : Bool) {m : Nat} {q : Int} (hm : m < 2 ^ 53)
    (hq : q ≤ 971) :
    ∃ y, (ofDecimal negative (Decimal.shortest .toEven m q)).float? = some y := by
  by_cases htop : q = 971 ∧ 2 ^ 53 < m + 8
  · obtain ⟨rfl, hlarge⟩ := htop
    obtain ⟨i, hi, rfl⟩ : ∃ i, i < 7 ∧ m = 2 ^ 53 - 7 + i := ⟨m - (2 ^ 53 - 7), by omega, by omega⟩
    exact Option.isSome_iff_exists.mp (isSome_float?_top i hi negative)
  · have hmargin : (0 : ℚ) ≤ margin ^ 3 := pow_nonneg margin_nonneg 3
    refine exists_float? (whole_ofDecimal_lt negative _) ?_
    rw [value_ofDecimal]
    refine (mul_le_mul_of_nonneg_right (Decimal.value_shortest_le .toEven m q) hmargin).trans_lt ?_
    exact significand_margin_lt hm hq fun heq => by omega

end Numeral

namespace Wire

/-- **Every finite float that is written is read back as a float.** -/
theorem exists_ofJson?_float {x : Float} (hx : x.isFinite = true) :
    ∃ y : Float, ofJson? (toJson x) = some y := by
  obtain ⟨negative, m, q, h, hm53, hq, -⟩ := Binary64.finite_of_isFinite hx
  show ∃ y : Float, ofJson? (Json.float x) = some y
  rw [Json.float, Numeral.ofFloat?, h]
  dsimp only
  by_cases hm : m = 0
  · rw [if_pos hm]
    have hzero : ∀ negative : Bool,
        ({ negative, whole := 0, fraction := [0] } : Numeral).float?.isSome = true := by
      decide +kernel
    exact Option.isSome_iff_exists.mp (hzero negative)
  · rw [if_neg hm]
    exact Numeral.exists_float?_shortest negative hm53 hq

/-- **Every float that is read is finite.** -/
theorem isFinite_of_ofJson? {j : Json} {y : Float} (h : ofJson? j = some y) :
    y.isFinite = true := by
  cases j with
  | number n => exact Numeral.isFinite_of_float? h
  | null => cases h
  | bool b => cases h
  | text s => cases h
  | array items => cases h
  | object fields => cases h

/-- **A float that is not large** is not read back as a large one. -/
theorem within_of_ofJson? {x y : Float} (hx : Within x (2 ^ (8 : ℤ)))
    (h : ofJson? (toJson x) = some y) : Within y (2 ^ (64 : ℤ)) := by
  obtain ⟨negative, m, q, hfloat, -⟩ := Binary64.finite_of_isFinite hx.isFinite
  change ofJson? (Json.float x) = some y at h
  rw [Json.float, Numeral.ofFloat?, hfloat] at h
  dsimp only at h
  by_cases hm : m = 0
  · rw [if_pos hm] at h
    refine Numeral.within_float? (by norm_num [Numeral.digitBound]) ?_ h
    norm_num [Numeral.value, Decimal.ofDigitsAfter]
  · rw [if_neg hm] at h
    refine Numeral.within_float? (Numeral.whole_ofDecimal_lt negative _) ?_ h
    rw [Numeral.value_ofDecimal]
    have hone : (1 : ℚ) ≤ m := by exact_mod_cast Nat.one_le_iff_ne_zero.mpr hm
    have hsize : (m : ℚ) * 2 ^ q ≤ 2 ^ (8 : ℤ) := by
      rw [← Binary64.abs_value negative, ← hfloat, ← value, abs_value hx.isFinite]
      exact hx.magnitude_le
    calc (Decimal.shortest .toEven m q).value ≤ (m + 1 / 2) * 2 ^ q :=
          Decimal.value_shortest_le .toEven m q
      _ ≤ 2 * m * 2 ^ q := mul_le_mul_of_nonneg_right (by linarith) (zpow_pos two_pos q).le
      _ = 2 * (m * 2 ^ q) := mul_assoc _ _ _
      _ ≤ 2 * 2 ^ (8 : ℤ) := mul_le_mul_of_nonneg_left hsize zero_le_two
      _ = 2 ^ (9 : ℤ) := by norm_num

end Wire
end Fleet
