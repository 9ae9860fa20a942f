import Fleet.Proofs.Number.Value
import Fleet.Proofs.Number.Comparison

/-!
# Rounding keeps the order

Rounding carries a number past no float (`IsRounded`).  So a product, a sum or a difference lies
between two floats if the exact one does: see `roundsTo_mul`, `roundsTo_add` and `roundsTo_sub`.  A
square root is rounded once, too, and is above zero if the number is (`nonneg_sqrt`).
-/

namespace Fleet.Rounding

open Float.Model Float.Model.UnpackedFloat

/-! ## Sizes -/

/-- **A float beside units that are given:** it is a whole number of them, or it has fewer bits in
front of them than any number of 53 bits. -/
theorem IsCanonical.size_eq_or_lt {u : UnpackedFloat} (hu : IsCanonical u) (unit : Int) :
    (∃ B : ℕ, size u = B * 2 ^ unit) ∨ (-1074 < unit ∧ size u < 2 ^ 52 * 2 ^ unit) := by
  rcases isCanonical_cases hu with ⟨s, rfl⟩ | ⟨s, m, e, h, rfl⟩
  · refine .inl ⟨0, ?_⟩
    rw [Nat.cast_zero, zero_mul]
    rfl
  rcases le_or_gt unit e with hle | hlt
  · obtain ⟨k, rfl⟩ : ∃ k : Nat, e = unit + k := ⟨(e - unit).toNat, by omega⟩
    refine .inl ⟨m * 2 ^ k, ?_⟩
    rw [size, zpow_add₀ two_ne_zero, zpow_natCast]
    push_cast
    ring
  · refine .inr ⟨hu.2.1.trans_lt hlt, ?_⟩
    have hmantissa : (m : ℚ) < 2 ^ 53 := by exact_mod_cast hu.1
    have hpower : (2 : ℚ) * 2 ^ e ≤ 2 ^ unit := by
      rw [← zpow_one_add₀ two_ne_zero]
      exact zpow_le_zpow_right₀ one_le_two (by omega)
    calc (m : ℚ) * 2 ^ e < 2 ^ 53 * 2 ^ e := mul_lt_mul_of_pos_right hmantissa (zpow_pos two_pos e)
      _ = 2 ^ 52 * (2 * 2 ^ e) := by ring
      _ ≤ 2 ^ 52 * 2 ^ unit := mul_le_mul_of_nonneg_left hpower (by positivity)

namespace IsCut

variable {v : ℚ} {M : Nat} {E : Int} {accuracy : Accuracy} (hcut : IsCut v M E accuracy)
  (s : Sign) (hE : E ≤ unitExponent M E)
include hcut hE

/-- A number with units that are not the smallest has 53 bits in front of them. -/
theorem full_le (hunit : -1074 < unitExponent M E) : 2 ^ 52 * 2 ^ unitExponent M E ≤ v := by
  obtain ⟨k, -, hk, hpower, -⟩ := exists_shifts hE le_rfl
  have hfull : 2 ^ 52 ≤ M / 2 ^ (unitExponent M E - E).toNat :=
    (le_div_or hE).resolve_right hunit.ne'
  rw [hk, Nat.le_div_iff_mul_le (by positivity)] at hfull
  refine le_trans ?_ hcut.le
  rw [hpower, ← mul_assoc]
  exact mul_le_mul_of_nonneg_right (by exact_mod_cast hfull) (zpow_pos two_pos E).le

variable {w : UnpackedFloat} (hw : IsCanonical w)
include hw

/-- **Rounding does not carry a number past a float,** upwards. -/
theorem size_round_le_size (h : v ≤ size w) :
    size (roundWithAccuracy double s M E accuracy) ≤ size w := by
  rcases hw.size_eq_or_lt (unitExponent M E) with ⟨B, hB⟩ | ⟨hunit, hlt⟩
  · rw [hB] at h ⊢
    exact hcut.size_round_le s hE h
  · exact absurd (hcut.full_le hE hunit) (not_le.mpr (h.trans_lt hlt))

/-- **And not downwards.** -/
theorem size_le_size_round (h : size w ≤ v) :
    size w ≤ size (roundWithAccuracy double s M E accuracy) := by
  rcases hw.size_eq_or_lt (unitExponent M E) with ⟨B, hB⟩ | ⟨hunit, hlt⟩
  · rw [hB] at h ⊢
    exact hcut.le_size_round s hE h
  · have hfull := hcut.le_size_round s hE (B := 2 ^ 52)
    rw [Nat.cast_pow, Nat.cast_ofNat] at hfull
    exact hlt.le.trans (hfull (hcut.full_le hE hunit))

end IsCut

/-! ## Numbers with a sign -/

/-- **A float is what a number is rounded to,** which carries the number past no float. -/
structure IsRounded (u : UnpackedFloat) (v : ℚ) : Prop where
  isCanonical : IsCanonical u
  upper : ∀ w, IsCanonical w → v ≤ signed w → signed u ≤ signed w
  lower : ∀ w, IsCanonical w → signed w ≤ v → signed w ≤ signed u

theorem IsCanonical.isRounded {u : UnpackedFloat} (hu : IsCanonical u) : IsRounded u (signed u) :=
  ⟨hu, fun _ _ h => h, fun _ _ h => h⟩

theorem signed_of_nonneg {u : UnpackedFloat} (h : 0 ≤ signed u) : signed u = size u := by
  rw [← abs_signed, abs_of_nonneg h]

theorem signed_of_nonpos {u : UnpackedFloat} (h : signed u ≤ 0) : signed u = -size u := by
  rw [← abs_signed, abs_of_nonpos h, neg_neg]

/-- **A number that is cut is rounded,** whatever its sign. -/
theorem IsCut.isRounded {v : ℚ} {M : Nat} {E : Int} {accuracy : Accuracy}
    (hcut : IsCut v M E accuracy) (s : Sign) (hE : E ≤ unitExponent M E) :
    IsRounded (roundWithAccuracy double s M E accuracy) (factor s * v) := by
  have hv : 0 ≤ v := (mul_nonneg (Nat.cast_nonneg M) (zpow_pos two_pos E).le).trans hcut.le
  have hsize := size_nonneg (roundWithAccuracy double s M E accuracy)
  have hsigned := signed_round s M E accuracy
  have hup {w : UnpackedFloat} (hw : IsCanonical w) := hcut.size_round_le_size s hE hw
  have hdown {w : UnpackedFloat} (hw : IsCanonical w) := hcut.size_le_size_round s hE hw
  cases s with
  | positive =>
    rw [factor, one_mul] at *
    refine ⟨(round_eq _ _ hE).1, fun w hw h => ?_, fun w hw h => ?_⟩
    · have hsame := signed_of_nonneg (hv.trans h)
      rw [hsame] at h ⊢
      exact hsigned.trans_le (hup hw h)
    · rcases le_total (signed w) 0 with hnonpos | hnonneg
      · exact hnonpos.trans (hsize.trans_eq hsigned.symm)
      · have hsame := signed_of_nonneg hnonneg
        rw [hsame] at h ⊢
        exact (hdown hw h).trans_eq hsigned.symm
  | negative =>
    rw [factor, neg_one_mul] at *
    refine ⟨(round_eq _ _ hE).1, fun w hw h => ?_, fun w hw h => ?_⟩
    · rcases le_total 0 (signed w) with hnonneg | hnonpos
      · exact (hsigned.trans_le (neg_nonpos.mpr hsize)).trans hnonneg
      · have hsame := signed_of_nonpos hnonpos
        rw [hsame, neg_le_neg_iff] at h
        rw [hsame, hsigned, neg_le_neg_iff]
        exact hdown hw h
    · have hnonpos : signed w ≤ 0 := h.trans (neg_nonpos.mpr hv)
      have hsame := signed_of_nonpos hnonpos
      rw [hsame, neg_le_neg_iff] at h
      rw [hsame, hsigned, neg_le_neg_iff]
      exact hup hw h

/-! ## Operations on unpacked floats -/

variable {u u' : UnpackedFloat} (hu : IsCanonical u) (hu' : IsCanonical u')

theorem size_pos_of_finite (s : Sign) {m : Nat} (e : Int) (h : 0 < m) :
    0 < size (.finite s m e h) := mul_pos (by exact_mod_cast h) (zpow_pos two_pos e)

theorem isRounded_normalize (M : Int) (E : Int) :
    IsRounded (UnpackedFloat.normalize double M E .positive) (M * 2 ^ E) := by
  have hround (s : Sign) (m : Nat) (hm : 0 < m) :
      IsRounded (UnpackedFloat.round double s m E) (factor s * (m * 2 ^ E)) := by
    obtain ⟨k, hround, hE, hvalue⟩ := exists_round s hm E
    rw [hround, ← hvalue]
    exact IsCut.isRounded (.inl ⟨rfl, rfl⟩) s hE
  rcases lt_trichotomy M 0 with hneg | rfl | hpos
  · obtain ⟨m, rfl⟩ : ∃ m : Nat, M = -m := ⟨(-M).toNat, by omega⟩
    have hcompare : compare (-(m : Int)) 0 = .lt := Int.compare_eq_lt.mpr hneg
    have hvalue : ((-(m : Int) : ℤ) : ℚ) * 2 ^ E = factor .negative * (m * 2 ^ E) := by
      rw [factor, Int.cast_neg, Int.cast_natCast, neg_mul, neg_one_mul]
    rw [UnpackedFloat.normalize, hcompare, hvalue]
    show IsRounded (UnpackedFloat.round double .negative (- -(m : Int)).toNat E) _
    rw [neg_neg, Int.toNat_natCast]
    exact hround .negative m (by omega)
  · rw [Int.cast_zero, zero_mul]
    exact IsCanonical.isRounded (u := .zero .positive) trivial
  · obtain ⟨m, rfl⟩ := Int.eq_ofNat_of_zero_le hpos.le
    have hcompare : compare (m : Int) 0 = .gt := Int.compare_eq_gt.mpr hpos
    have hvalue : ((m : ℤ) : ℚ) * 2 ^ E = factor .positive * (m * 2 ^ E) := by
      rw [factor, Int.cast_natCast, one_mul]
    rw [UnpackedFloat.normalize, hcompare, hvalue]
    exact hround .positive m (by omega)

include hu hu'

theorem isRounded_mul : IsRounded (UnpackedFloat.mul double u u') (signed u * signed u') := by
  rcases isCanonical_cases hu with ⟨s, rfl⟩ | ⟨s, m, e, h, rfl⟩
  · have hzero : signed (.zero s) * signed u' = 0 := zero_mul _
    rw [hzero]
    rcases isCanonical_cases hu' with ⟨s', rfl⟩ | ⟨s', m', e', h', rfl⟩
    · exact IsCanonical.isRounded (u := .zero (s * s')) trivial
    · exact IsCanonical.isRounded (u := .zero (s * s')) trivial
  rcases isCanonical_cases hu' with ⟨s', rfl⟩ | ⟨s', m', e', h', rfl⟩
  · have hzero : signed (.finite s m e h) * signed (.zero s') = 0 := mul_zero _
    rw [hzero]
    exact IsCanonical.isRounded (u := .zero (s * s')) trivial
  obtain ⟨t, M, E, hE, -, hvalue, hmul⟩ := exists_mul hu hu' (size_pos_of_finite s e h)
    (size_pos_of_finite s' e' h')
  rw [hmul, ← hvalue]
  exact IsCut.isRounded (.inl ⟨rfl, rfl⟩) t hE

theorem isRounded_add : IsRounded (UnpackedFloat.add double u u') (signed u + signed u') := by
  rcases isCanonical_cases hu with ⟨s, rfl⟩ | ⟨s, m, e, h, rfl⟩
  · have hzero : signed (.zero s) + signed u' = signed u' := zero_add _
    rw [hzero]
    rcases isCanonical_cases hu' with ⟨s', rfl⟩ | ⟨s', m', e', h', rfl⟩
    · obtain ⟨t, ht⟩ : ∃ t, UnpackedFloat.add double (.zero s) (.zero s') = .zero t := by
        cases s <;> cases s' <;> exact ⟨_, rfl⟩
      rw [ht]
      exact IsCanonical.isRounded (u := .zero t) trivial
    · exact hu'.isRounded
  rcases isCanonical_cases hu' with ⟨s', rfl⟩ | ⟨s', m', e', h', rfl⟩
  · have hzero : signed (.finite s m e h) + signed (.zero s') = signed (.finite s m e h) :=
      add_zero _
    rw [hzero]
    exact hu.isRounded
  obtain ⟨M, E, hadd, hsum⟩ := exists_add s s' e e' h h'
  rw [hadd, ← hsum]
  exact isRounded_normalize M E

omit hu in
theorem signed_neg : signed (UnpackedFloat.neg u') = -signed u' := by
  rcases isCanonical_cases hu' with ⟨s, rfl⟩ | ⟨s, m, e, h, rfl⟩
  · exact neg_zero.symm
  · cases s with
    | negative => exact (one_mul _).trans ((neg_neg _).symm.trans (congrArg Neg.neg
        (neg_one_mul _).symm))
    | positive => exact (neg_one_mul _).trans (congrArg Neg.neg (one_mul _).symm)

theorem isRounded_sub : IsRounded (UnpackedFloat.sub double u u') (signed u - signed u') := by
  have hsum := isRounded_add hu (isCanonical_neg hu').1
  rwa [signed_neg hu', ← sub_eq_add_neg, ← sub_eq] at hsum

omit hu hu'

/-- **A number that is not too large** is packed as it is rounded. -/
theorem IsRounded.pack {v : ℚ} (h : IsRounded u v) (hv : |v| ≤ top) :
    IsRounded (pack u).unpack v := by
  obtain ⟨hlow, hhigh⟩ := abs_le.mp hv
  have hcanonical (s : Sign) : IsCanonical (.finite s (2 ^ 52) 971 (by norm_num)) :=
    ⟨by norm_num, by norm_num, .inl le_rfl⟩
  have htop : ((2 ^ 52 : ℕ) : ℚ) * 2 ^ (971 : ℤ) = top := by
    rw [top, Nat.cast_pow, Nat.cast_ofNat, ← zpow_natCast, ← zpow_add₀ two_ne_zero]
    rfl
  have hsigned (s : Sign) : signed (.finite s (2 ^ 52) 971 (by norm_num)) = factor s * top :=
    congrArg (factor s * ·) htop
  have hpositive := hsigned .positive
  have hnegative := hsigned .negative
  rw [factor, one_mul] at hpositive
  rw [factor, neg_one_mul] at hnegative
  have hupper := h.upper _ (hcanonical .positive) (hhigh.trans_eq hpositive.symm)
  have hlower := h.lower _ (hcanonical .negative) (hnegative.trans_le hlow)
  rw [hpositive] at hupper
  rw [hnegative] at hlower
  have hsize : size u ≤ top := (abs_signed u).symm.trans_le (abs_le.mpr ⟨hlower, hupper⟩)
  rwa [unpack_pack h.isCanonical
    (hsize.trans_lt (zpow_lt_zpow_right₀ one_lt_two (by norm_num)))]

/-! ## Operations on floats -/

/-- **A float is what a number is rounded to.** -/
abbrev RoundsTo (x : Float) (v : ℚ) : Prop := IsRounded x.toModel.unpack v

section Floats

variable {x y a b : Float} {v : ℚ}

theorem RoundsTo.isFinite (h : RoundsTo x v) : x.isFinite = true :=
  isFinite_of_isCanonical h.isCanonical

/-- What is at most a float is rounded to at most that float. -/
theorem RoundsTo.le (h : RoundsTo x v) (hb : b.isFinite = true) (hv : v ≤ value b) : x ≤ b := by
  rw [le_iff_value h.isFinite hb, value_eq_signed h.isFinite, value_eq_signed hb]
  rw [value_eq_signed hb] at hv
  exact h.upper _ (isCanonical_unpack hb).1 hv

/-- And so is what is at least a float. -/
theorem RoundsTo.ge (h : RoundsTo x v) (ha : a.isFinite = true) (hv : value a ≤ v) : a ≤ x := by
  rw [le_iff_value ha h.isFinite, value_eq_signed h.isFinite, value_eq_signed ha]
  rw [value_eq_signed ha] at hv
  exact h.lower _ (isCanonical_unpack ha).1 hv

/-- A float between two others is finite if they are. -/
theorem isFinite_of_between (ha : a.isFinite = true) (hb : b.isFinite = true) (hax : a ≤ x)
    (hxb : x ≤ b) : x.isFinite = true := by
  rw [le_iff] at hax hxb
  show x.toModel.unpack.isFinite = true
  cases hx : x.toModel.unpack with
  | notANumber =>
    rw [hx] at hax
    cases ha' : a.toModel.unpack <;> rw [ha'] at hax <;> cases hax
  | infinity s =>
    rw [hx] at hax hxb
    cases s with
    | negative =>
      rcases isCanonical_cases (isCanonical_unpack ha).1 with ⟨s, ha'⟩ | ⟨s, m, e, h, ha'⟩
      · rw [ha'] at hax
        cases hax
      · rw [ha'] at hax
        cases s <;> cases hax
    | positive =>
      rcases isCanonical_cases (isCanonical_unpack hb).1 with ⟨s, hb'⟩ | ⟨s, m, e, h, hb'⟩
      · rw [hb'] at hxb
        cases hxb
      · rw [hb'] at hxb
        cases s <;> cases hxb
  | zero s => rfl
  | finite s m e h => rfl

variable (hx : x.isFinite = true) (hy : y.isFinite = true)
include hx

theorem isNaN_of_isFinite : x.isNaN = false := by
  show x.toModel.unpack.isNaN = false
  rcases isCanonical_cases (isCanonical_unpack hx).1 with ⟨s, hx⟩ | ⟨s, m, e, hpos, hx⟩
  · rw [hx]
    rfl
  · rw [hx]
    rfl

include hy

theorem lt_iff_value : x < y ↔ value x < value y := by
  rw [← not_le, ← le_iff_value hy hx,
    ← Comparison.not_lt_iff (isNaN_of_isFinite hx) (isNaN_of_isFinite hy), not_not]

/-- **A product is the exact one rounded,** and so are sums and differences. -/
theorem roundsTo_mul (h : |value x * value y| ≤ top) : RoundsTo (x * y) (value x * value y) := by
  rw [value_eq_signed hx, value_eq_signed hy] at h ⊢
  exact (isRounded_mul (isCanonical_unpack hx).1 (isCanonical_unpack hy).1).pack h

theorem roundsTo_add (h : |value x + value y| ≤ top) : RoundsTo (x + y) (value x + value y) := by
  rw [value_eq_signed hx, value_eq_signed hy] at h ⊢
  exact (isRounded_add (isCanonical_unpack hx).1 (isCanonical_unpack hy).1).pack h

theorem roundsTo_sub (h : |value x - value y| ≤ top) : RoundsTo (x - y) (value x - value y) := by
  rw [value_eq_signed hx, value_eq_signed hy] at h ⊢
  exact (isRounded_sub (isCanonical_unpack hx).1 (isCanonical_unpack hy).1).pack h

end Floats

/-! ## Square roots -/

/-- How a root is taken: of a number so long that its root has as many bits as the result. -/
theorem sqrtCore_eq {m : Nat} {e : Int} (hm : 0 < m) (he : -1074 ≤ e) :
    ∃ (k : Nat) (E : Int), e = 2 * E + k ∧ -1074 ≤ E ∧
      (sqrtCore double m e).1 = (m * 2 ^ k).sqrt ∧ (sqrtCore double m e).2.1 = E ∧
      (2 ^ 52 ≤ (m * 2 ^ k).sqrt ∨ E ≤ -1074) := by
  obtain ⟨E, hE⟩ : ∃ E, E = min (e.ediv 2)
    (double.targetExponent ((totalExponent m e + 1).ediv 2)) := ⟨_, rfl⟩
  have htarget : double.targetExponent ((totalExponent m e + 1).ediv 2) =
      max (((m.log2 : Int) + e + 2) / 2 - 53) (-1074) := by
    have htotal : totalExponent m e + 1 = (m.log2 : Int) + e + 2 := by
      rw [totalExponent]
      omega
    rw [htotal]
    rfl
  have hhalf : e.ediv 2 = e / 2 := rfl
  obtain ⟨k, hk⟩ : ∃ k : Nat, e = 2 * E + k := ⟨(e - 2 * E).toNat, by omega⟩
  have hshift : (e - 2 * E).toNat = k := by omega
  refine ⟨k, E, hk, by omega, ?_, hE.symm, ?_⟩
  · simp only [sqrtCore, ← hE, hshift, Nat.shiftLeft_eq]
  · by_cases hleast : E ≤ -1074
    · exact .inr hleast
    · refine .inl (Nat.le_sqrt.mpr ?_)
      have hbits : 104 ≤ m.log2 + k := by omega
      calc 2 ^ 52 * 2 ^ 52 = 2 ^ 104 := by norm_num
        _ ≤ 2 ^ (m.log2 + k) := Nat.pow_le_pow_right two_pos hbits
        _ = 2 ^ m.log2 * 2 ^ k := pow_add _ _ _
        _ ≤ m * 2 ^ k := Nat.mul_le_mul_right _ (Nat.log2_self_le (by omega))

/-- **The root of a float above zero** is cut and then rounded once.  What is cut off is less than
one, and no more is said of it. -/
theorem exists_sqrt {m : Nat} {e : Int} (h : 0 < m) (he : -1074 ≤ e) :
    ∃ (M : Nat) (E : Int) (accuracy : Accuracy) (v : ℚ), 0 < M ∧ -1074 ≤ E ∧
      E ≤ unitExponent M E ∧ IsCut v M E accuracy ∧
      M * 2 ^ E * (M * 2 ^ E) ≤ size (.finite .positive m e h) ∧
      UnpackedFloat.sqrt double (.finite .positive m e h) =
        roundWithAccuracy double .positive M E accuracy := by
  obtain ⟨k, E, rfl, hleast, hroot, hexponent, hfull⟩ := sqrtCore_eq h he
  have hpower : (0 : ℚ) < 2 ^ E := zpow_pos two_pos E
  have hpos : 0 < (m * 2 ^ k).sqrt := Nat.sqrt_pos.mpr (Nat.mul_pos h (Nat.two_pow_pos k))
  have hsquare : (m * 2 ^ k).sqrt * 2 ^ E * ((m * 2 ^ k).sqrt * 2 ^ E) ≤
      size (.finite .positive m (2 * E + k) h) := by
    have hsize : size (.finite .positive m (2 * E + k) h) =
        (m * 2 ^ k : ℕ) * (2 ^ E * 2 ^ E) := by
      rw [size, zpow_add₀ two_ne_zero, two_mul, zpow_add₀ two_ne_zero, zpow_natCast]
      push_cast
      ring
    calc (m * 2 ^ k).sqrt * (2 : ℚ) ^ E * ((m * 2 ^ k).sqrt * 2 ^ E)
        = ((m * 2 ^ k).sqrt * (m * 2 ^ k).sqrt : ℕ) * (2 ^ E * 2 ^ E) := by
          push_cast
          ring
      _ ≤ (m * 2 ^ k : ℕ) * (2 ^ E * 2 ^ E) :=
          mul_le_mul_of_nonneg_right (by exact_mod_cast Nat.sqrt_le _) (by positivity)
      _ = _ := hsize.symm
  rw [UnpackedFloat.sqrt]
  generalize sqrtCore double m (2 * E + k) = core at *
  obtain ⟨root, E', accuracy⟩ := core
  obtain rfl : root = (m * 2 ^ k).sqrt := hroot
  obtain rfl : E' = E := hexponent
  obtain ⟨v, hcut⟩ : ∃ v, IsCut v (m * 2 ^ k).sqrt E' accuracy := by
    by_cases hexact : accuracy = .exact
    · exact ⟨_, .inl ⟨hexact, rfl⟩⟩
    · exact ⟨((m * 2 ^ k).sqrt + 1 / 2) * 2 ^ E', .inr ⟨by nlinarith, by nlinarith⟩⟩
  exact ⟨_, E', accuracy, v, hpos, hleast, le_unitExponent hfull, hcut, hsquare, rfl⟩

/-- It is above zero as well, and far from the ends of the range. -/
theorem sqrt_pos {u : UnpackedFloat} (hu : IsCanonical u) (hpos : 0 < signed u)
    (hsmall : size u < 2 ^ (1024 : ℤ)) :
    IsCanonical (UnpackedFloat.sqrt double u) ∧ 0 < signed (UnpackedFloat.sqrt double u) ∧
      signed (UnpackedFloat.sqrt double u) ≤ top := by
  rcases isCanonical_cases hu with ⟨s, rfl⟩ | ⟨s, m, e, h, rfl⟩
  · exact absurd hpos (lt_irrefl 0)
  cases s with
  | negative =>
    have hneg : signed (.finite .negative m e h) ≤ 0 :=
      mul_nonpos_of_nonpos_of_nonneg (by norm_num [factor]) (size_pos_of_finite .negative e h).le
    exact absurd hpos (not_lt.mpr hneg)
  | positive =>
    obtain ⟨M, E, accuracy, v, hM, hleast, hE, hcut, hsquare, hsqrt⟩ := exists_sqrt h hu.2.1
    have hrounds := hcut.rounds .positive hE
    have hstep : (2 : ℚ) ^ E ≤ M * 2 ^ E :=
      le_mul_of_one_le_left (zpow_pos two_pos E).le (by exact_mod_cast hM)
    have hhigh : v ≤ 2 ^ (513 : ℤ) := by
      have hroot : (M : ℚ) * 2 ^ E < 2 ^ (512 : ℤ) := by
        refine lt_of_mul_self_lt_mul_self₀ (zpow_pos two_pos _).le ?_
        rw [← zpow_add₀ two_ne_zero]
        exact hsquare.trans_lt hsmall
      have hdouble : (2 : ℚ) ^ (513 : ℤ) = 2 ^ (512 : ℤ) * 2 := zpow_add_one₀ two_ne_zero 512
      have hlt := hcut.lt
      rw [hdouble]
      linarith
    have hsigned := signed_round .positive M E accuracy
    rw [factor, one_mul] at hsigned
    rw [hsqrt, hsigned]
    refine ⟨hrounds.isCanonical, ?_, ?_⟩
    · exact (zpow_pos two_pos E).trans_le (hrounds.lower E hleast (hstep.trans hcut.le))
    · exact (hrounds.upper 513 (by norm_num) hhigh).trans (two_zpow_le_top (by norm_num))

/-- **The root of a float that is not below zero** is not below zero either, and is above it if the
float is. -/
theorem nonneg_sqrt {x : Float} (hx : x.isFinite = true) (h : 0 ≤ x) :
    x.sqrt.isFinite = true ∧ 0 ≤ x.sqrt ∧ (0 < x → 0 < x.sqrt) := by
  have hzero : (0 : Float).isFinite = true := rfl
  obtain ⟨hcanonical, hsmall⟩ := isCanonical_unpack hx
  rw [le_iff_value hzero hx, value_zero, value_eq_signed hx] at h
  have hsqrt : x.sqrt.toModel.unpack = (pack (UnpackedFloat.sqrt double x.toModel.unpack)).unpack :=
    rfl
  rcases h.eq_or_lt with heq | hpos
  · -- the root of a zero is that zero
    have hroot : x.sqrt.toModel.unpack = x.toModel.unpack := by
      rcases isCanonical_cases hcanonical with ⟨s, hx⟩ | ⟨s, m, e, hm, hx⟩
      · rw [hsqrt, hx]
        exact unpack_pack_zero s
      · rw [hx] at heq
        have hne := abs_pos_of_pos (size_pos_of_finite s e hm)
        rw [← abs_signed, ← heq, abs_zero, abs_zero] at hne
        exact absurd hne (lt_irrefl 0)
    have hfinite : x.sqrt.isFinite = true := isFinite_of_isCanonical (hroot ▸ hcanonical)
    refine ⟨hfinite, ?_, fun habove => ?_⟩
    · rw [le_iff_value hzero hfinite, value_zero, value_eq_signed hfinite, hroot]
      exact h
    · rw [lt_iff_value hzero hx, value_zero, value_eq_signed hx, ← heq] at habove
      exact absurd habove (lt_irrefl 0)
  · obtain ⟨hrounded, habove, htop⟩ := sqrt_pos hcanonical hpos hsmall
    have hin : size (UnpackedFloat.sqrt double x.toModel.unpack) < 2 ^ (1024 : ℤ) := by
      rw [← signed_of_nonneg habove.le]
      exact htop.trans_lt (zpow_lt_zpow_right₀ one_lt_two (by norm_num))
    have hroot := hsqrt.trans (unpack_pack hrounded hin)
    have hfinite : x.sqrt.isFinite = true := isFinite_of_isCanonical (hroot ▸ hrounded)
    rw [le_iff_value hzero hfinite, lt_iff_value hzero hfinite, value_zero, value_eq_signed hfinite,
      hroot]
    exact ⟨hfinite, habove.le, fun _ => habove⟩

end Fleet.Rounding
