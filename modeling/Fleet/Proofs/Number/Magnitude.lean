import Fleet.Proofs.Number.Rounding

/-!
# How large results of float arithmetic are

A result is not rounded past a power of two.  So it is bounded by any power of two that bounds the
exact result (`Rounds`), and this is enough to see that a computation stays in range: see
`Within.mul`, `Within.div` and `Within.add`.
-/

namespace Fleet.Rounding

open Float.Model Float.Model.UnpackedFloat

/-! ## Operations on unpacked floats -/

/-- **A float is a number up to rounding,** as far as powers of two can tell. -/
structure Rounds (u : UnpackedFloat) (v : ℚ) : Prop where
  isCanonical : IsCanonical u
  upper : ∀ j : Int, -1074 ≤ j → v ≤ 2 ^ j → size u ≤ 2 ^ j
  lower : ∀ i : Int, -1074 ≤ i → 2 ^ i ≤ v → 2 ^ i ≤ size u

theorem IsCanonical.rounds {u : UnpackedFloat} (hu : IsCanonical u) : Rounds u (size u) :=
  ⟨hu, fun _ _ h => h, fun _ _ h => h⟩

theorem rounds_zero (s : Sign) : Rounds (.zero s) 0 := IsCanonical.rounds trivial

/-- **A number that is cut is rounded** like one that is not. -/
theorem IsCut.rounds {v : ℚ} {M : Nat} {E : Int} {accuracy : Accuracy}
    (hcut : IsCut v M E accuracy) (s : Sign) (hE : E ≤ unitExponent M E) :
    Rounds (roundWithAccuracy double s M E accuracy) v where
  isCanonical := (round_eq s accuracy hE).1
  upper j hj h := by
    obtain ⟨-, g, -, -, hbound⟩ := exists_shifts hE (unitExponent_le hE hj (hcut.le.trans h))
    rw [hbound] at h ⊢
    exact_mod_cast hcut.size_round_le s hE (B := 2 ^ g) (by exact_mod_cast h)
  lower i hi h := by
    rcases le_or_gt (unitExponent M E) i with hle | hlt
    · -- the power is a whole number of units
      obtain ⟨-, g, -, -, hbound⟩ := exists_shifts hE hle
      rw [hbound] at h ⊢
      exact_mod_cast hcut.le_size_round s hE (B := 2 ^ g) (by exact_mod_cast h)
    · -- the power is less than one unit
      have hfull : 2 ^ 52 ≤ M / 2 ^ (unitExponent M E - E).toNat :=
        (le_div_or hE).resolve_right (by omega)
      have hone : (1 : ℚ) ≤ rounded M accuracy (unitExponent M E - E).toNat := by
        exact_mod_cast (show 1 ≤ 2 ^ 52 by norm_num).trans
          (hfull.trans (rounded_bounds M accuracy _).1)
      rw [(round_eq s accuracy hE).2]
      calc (2 : ℚ) ^ i ≤ 2 ^ unitExponent M E := zpow_le_zpow_right₀ one_le_two hlt.le
        _ ≤ rounded M accuracy (unitExponent M E - E).toNat * 2 ^ unitExponent M E :=
          le_mul_of_one_le_left (zpow_pos two_pos _).le hone

theorem rounds_round (s : Sign) {M : Nat} {E : Int} (hE : E ≤ unitExponent M E) :
    Rounds (roundWithAccuracy double s M E .exact) (M * 2 ^ E) :=
  IsCut.rounds (.inl ⟨rfl, rfl⟩) s hE

theorem isCanonical_cases {u : UnpackedFloat} (hu : IsCanonical u) :
    (∃ s, u = .zero s) ∨ ∃ s m e h, u = .finite s m e h := by
  cases u with
  | notANumber => cases hu
  | infinity s => cases hu
  | zero s => exact .inl ⟨s, rfl⟩
  | finite s m e h => exact .inr ⟨s, m, e, h, rfl⟩

/-- A number that is 53 bits long has no bits below its units. -/
theorem le_unitExponent {M : Nat} {E : Int} (h : 2 ^ 52 ≤ M ∨ E ≤ -1074) :
    E ≤ unitExponent M E := by
  rw [unitExponent]
  rcases h with hM | hE
  · have hlog : 52 ≤ M.log2 := (Nat.le_log2 (by omega)).mpr hM
    omega
  · omega

theorem factor_mul (s s' : Sign) : factor (s * s') = factor s * factor s' := by
  have hpositive : factor .positive = 1 := rfl
  have hnegative : factor .negative = -1 := rfl
  cases s with
  | positive =>
    rw [hpositive, one_mul]
    cases s' <;> rfl
  | negative =>
    rw [hnegative, neg_one_mul]
    cases s' with
    | positive => rfl
    | negative => exact (neg_neg (1 : ℚ)).symm

/-- The product of two floats that are not zero is rounded once. -/
theorem exists_mul {u u' : UnpackedFloat} (hu : IsCanonical u) (hu' : IsCanonical u')
    (hpos : 0 < size u) (hpos' : 0 < size u') :
    ∃ s M E, E ≤ unitExponent M E ∧ (M : ℚ) * 2 ^ E = size u * size u' ∧
      factor s * (M * 2 ^ E) = signed u * signed u' ∧
      UnpackedFloat.mul double u u' = roundWithAccuracy double s M E .exact := by
  rcases isCanonical_cases hu with ⟨s, rfl⟩ | ⟨s, m, e, h, rfl⟩
  · exact absurd hpos (lt_irrefl 0)
  rcases isCanonical_cases hu' with ⟨s', rfl⟩ | ⟨s', m', e', h', rfl⟩
  · exact absurd hpos' (lt_irrefl 0)
  have hproduct : ((m * m' : ℕ) : ℚ) * 2 ^ (e + e') = m * 2 ^ e * (m' * 2 ^ e') := by
    rw [Nat.cast_mul, zpow_add₀ two_ne_zero]
    ring
  refine ⟨s * s', m * m', e + e', le_unitExponent ?_, hproduct, ?_, rfl⟩
  · rcases hu.2.2 with hm | he
    · exact .inl (hm.trans (Nat.le_mul_of_pos_right m h'))
    rcases hu'.2.2 with hm' | he'
    · exact .inl (hm'.trans (Nat.le_mul_of_pos_left m' h))
    · exact .inr (by omega)
  · rw [hproduct, factor_mul, signed, signed]
    ring

theorem rounds_mul {u u' : UnpackedFloat} (hu : IsCanonical u) (hu' : IsCanonical u') :
    Rounds (UnpackedFloat.mul double u u') (size u * size u') := by
  have hpos (s : Sign) {m : Nat} (e : Int) (h : 0 < m) : 0 < size (.finite s m e h) :=
    mul_pos (by exact_mod_cast h) (zpow_pos two_pos e)
  rcases isCanonical_cases hu with ⟨s, rfl⟩ | ⟨s, m, e, h, rfl⟩
  · have hzero : size (.zero s) * size u' = 0 := zero_mul _
    rw [hzero]
    rcases isCanonical_cases hu' with ⟨s', rfl⟩ | ⟨s', m', e', h', rfl⟩
    · exact rounds_zero (s * s')
    · exact rounds_zero (s * s')
  rcases isCanonical_cases hu' with ⟨s', rfl⟩ | ⟨s', m', e', h', rfl⟩
  · have hzero : size (.finite s m e h) * size (.zero s') = 0 := mul_zero _
    rw [hzero]
    exact rounds_zero (s * s')
  obtain ⟨t, M, E, hE, hvalue, -, hmul⟩ := exists_mul hu hu' (hpos s e h) (hpos s' e' h')
  rw [hmul, ← hvalue]
  exact rounds_round t hE

/-- How a quotient is taken: as many bits are put behind the dividend as the result has. -/
theorem divCore_eq (m m' : Nat) (e e' : Int) (hm : 0 < m) (hm' : 0 < m') :
    ∃ (k : Nat) (E : Int), e - e' = E + k ∧
      divCore double m e m' e' =
        (m * 2 ^ k / m', E, accuracyOfFraction (m * 2 ^ k % m') m') ∧
      (2 ^ 52 ≤ m * 2 ^ k / m' ∨ E ≤ -1074) := by
  obtain ⟨E, hE⟩ : ∃ E, E = min (e - e')
    (double.targetExponent (totalExponent m e - totalExponent m' e')) := ⟨_, rfl⟩
  obtain ⟨k, hk⟩ : ∃ k : Nat, e - e' = E + k := ⟨(e - e' - E).toNat, by omega⟩
  have hshift : (e - e' - E).toNat = k := by omega
  refine ⟨k, E, hk, ?_, ?_⟩
  · simp only [divCore, ← hE, hshift, Nat.shiftLeft_eq]
  · have htarget : double.targetExponent (totalExponent m e - totalExponent m' e') =
        max ((m.log2 : Int) - m'.log2 + (e - e') - 53) (-1074) := by
      simp only [Format.targetExponent, totalExponent, Format.minExponent, Format.mantissaBits]
      push_cast
      omega
    by_cases hleast : E ≤ -1074
    · exact .inr hleast
    · refine .inl ((Nat.le_div_iff_mul_le hm').mpr ?_)
      have hbits : 53 + m'.log2 ≤ m.log2 + k := by omega
      calc 2 ^ 52 * m' ≤ 2 ^ 52 * 2 ^ (m'.log2 + 1) :=
            Nat.mul_le_mul_left _ Nat.lt_log2_self.le
        _ = 2 ^ (53 + m'.log2) := by
            rw [← pow_add]
            congr 1
            omega
        _ ≤ 2 ^ (m.log2 + k) := Nat.pow_le_pow_right two_pos hbits
        _ = 2 ^ m.log2 * 2 ^ k := pow_add _ _ _
        _ ≤ m * 2 ^ k := Nat.mul_le_mul_right _ (Nat.log2_self_le (by omega))

/-- **The quotient of two floats** is cut and then rounded once. -/
theorem exists_div (s s' : Sign) {m m' : Nat} (e e' : Int) (h : 0 < m) (h' : 0 < m') :
    ∃ M E accuracy, E ≤ unitExponent M E ∧
      IsCut (size (.finite s m e h) / size (.finite s' m' e' h')) M E accuracy ∧
      UnpackedFloat.div double (.finite s m e h) (.finite s' m' e' h') =
        roundWithAccuracy double (s / s') M E accuracy := by
  obtain ⟨k, E, hk, hcore, hfull⟩ := divCore_eq m m' e e' h h'
  refine ⟨m * 2 ^ k / m', E, accuracyOfFraction (m * 2 ^ k % m') m', le_unitExponent hfull, ?_,
    by rw [UnpackedFloat.div, hcore]⟩
  have hsize : size (.finite s m e h) / size (.finite s' m' e' h') =
      (m * 2 ^ k : ℕ) / m' * 2 ^ E := by
    have hpower : (2 : ℚ) ^ e = 2 ^ k * 2 ^ E * 2 ^ e' := by
      rw [← zpow_natCast, ← zpow_add₀ two_ne_zero, ← zpow_add₀ two_ne_zero]
      congr 1
      omega
    have hne : (2 : ℚ) ^ e' ≠ 0 := (zpow_pos two_pos e').ne'
    have hne' : (m' : ℚ) ≠ 0 := by exact_mod_cast h'.ne'
    rw [size, size, hpower]
    push_cast
    field_simp
  have hdivision := Nat.div_add_mod (m * 2 ^ k) m'
  have hremainder := Nat.mod_lt (m * 2 ^ k) h'
  rw [hsize]
  generalize m * 2 ^ k = d at *
  have hcast : (m' : ℚ) * (d / m' : ℕ) + (d % m' : ℕ) = d := by exact_mod_cast hdivision
  have hm' : (0 : ℚ) < m' := by exact_mod_cast h'
  have hpower : (0 : ℚ) < 2 ^ E := zpow_pos two_pos E
  by_cases hexact : d % m' = 0
  · have hquotient : (d : ℚ) / m' = (d / m' : ℕ) := by
      rw [hexact, Nat.cast_zero, add_zero] at hcast
      rw [← hcast, mul_div_cancel_left₀ _ hm'.ne']
    exact .inl ⟨if_pos hexact, congrArg (· * 2 ^ E) hquotient⟩
  · refine .inr ⟨mul_lt_mul_of_pos_right ?_ hpower, mul_lt_mul_of_pos_right ?_ hpower⟩
    · rw [lt_div_iff₀ hm', ← hcast]
      have hsome : (0 : ℚ) < (d % m' : ℕ) := by exact_mod_cast Nat.pos_of_ne_zero hexact
      linarith
    · rw [div_lt_iff₀ hm', ← hcast]
      have hless : ((d % m' : ℕ) : ℚ) < m' := by exact_mod_cast hremainder
      linarith

theorem rounds_div {u u' : UnpackedFloat} (hu : IsCanonical u) (hu' : IsCanonical u')
    (hpos : 0 < size u') : Rounds (UnpackedFloat.div double u u') (size u / size u') := by
  rcases isCanonical_cases hu' with ⟨s', rfl⟩ | ⟨s', m', e', h', rfl⟩
  · exact absurd hpos (lt_irrefl 0)
  rcases isCanonical_cases hu with ⟨s, rfl⟩ | ⟨s, m, e, h, rfl⟩
  · have hzero : size (.zero s) / size (.finite s' m' e' h') = 0 := zero_div _
    rw [hzero]
    exact rounds_zero (s / s')
  · obtain ⟨M, E, accuracy, hE, hcut, hdiv⟩ := exists_div s s' e e' h h'
    rw [hdiv]
    exact hcut.rounds _ hE

/-! ## Sums -/

/-- A number that is too short is made longer before it is rounded. -/
theorem exists_round (s : Sign) {m : Nat} (hm : 0 < m) (E : Int) :
    ∃ k : Nat, UnpackedFloat.round double s m E =
        roundWithAccuracy double s (m * 2 ^ k) (E - k) .exact ∧
      E - k ≤ unitExponent (m * 2 ^ k) (E - k) ∧
      ((m * 2 ^ k : ℕ) : ℚ) * 2 ^ (E - k : ℤ) = m * 2 ^ E := by
  obtain ⟨k, hk⟩ : ∃ k : Nat, (E - unitExponent m E).toNat = k := ⟨_, rfl⟩
  have hround : UnpackedFloat.round double s m E =
      roundWithAccuracy double s (m * 2 ^ k) (E - k) .exact := by
    simp only [UnpackedFloat.round, decreaseExponent, targetExponent_eq, hk, Nat.shiftLeft_eq]
  have hlog : (m * 2 ^ k).log2 = m.log2 + k := by
    refine (Nat.log2_eq_iff (by positivity)).mpr ⟨?_, ?_⟩
    · rw [pow_add]
      exact Nat.mul_le_mul_right _ (Nat.log2_self_le (by omega))
    · rw [add_right_comm, pow_add]
      exact Nat.mul_lt_mul_of_pos_right Nat.lt_log2_self (by positivity)
  refine ⟨k, hround, ?_, ?_⟩
  · rw [unitExponent] at hk
    rw [unitExponent, hlog]
    omega
  · rw [Nat.cast_mul, Nat.cast_pow, Nat.cast_ofNat, mul_assoc, ← zpow_natCast,
      ← zpow_add₀ two_ne_zero]
    congr 2
    omega

/-- A number just above a power of two is rounded to that power. -/
theorem size_round_le_of_slack (s : Sign) {M : Nat} {E j : Int} (hE : E ≤ unitExponent M E)
    (hj : -1022 ≤ j) (h : (M : ℚ) * 2 ^ E ≤ 2 ^ j + 2 ^ (j - 54)) :
    size (roundWithAccuracy double s M E .exact) ≤ 2 ^ j := by
  by_cases hsmall : (M : ℚ) * 2 ^ E ≤ 2 ^ j
  · exact (rounds_round s hE).upper j (by omega) hsmall
  have hM : M ≠ 0 := by
    rintro rfl
    refine hsmall ?_
    rw [Nat.cast_zero, zero_mul]
    exact (zpow_pos two_pos j).le
  have hhalf : (2 : ℚ) ^ (j - 53) = 2 * 2 ^ (j - 54) := by
    rw [← zpow_one_add₀ two_ne_zero]
    congr 1
    omega
  have hslack : (2 : ℚ) ^ (j - 54) < 2 ^ j := zpow_lt_zpow_right₀ one_lt_two (by omega)
  have hpos : (0 : ℚ) < 2 ^ (j - 54) := zpow_pos two_pos _
  -- the number and the power have the same units
  have hlower : j < (M.log2 : Int) + E + 1 :=
    (zpow_lt_zpow_iff_right₀ (one_lt_two (α := ℚ))).mp
      ((not_le.mp hsmall).trans (lt_two_zpow_log2 M E))
  have hupper : (M.log2 : Int) + E < j + 1 := by
    refine (zpow_lt_zpow_iff_right₀ (one_lt_two (α := ℚ))).mp ?_
    calc (2 : ℚ) ^ ((M.log2 : Int) + E) ≤ M * 2 ^ E := two_zpow_log2_le hM E
      _ < 2 ^ j * 2 := by linarith
      _ = 2 ^ (j + 1) := (zpow_add_one₀ two_ne_zero j).symm
  have hunit : unitExponent M E = j - 52 := by
    rw [unitExponent]
    omega
  have hdouble : (2 : ℚ) ^ (j - 52) = 2 * 2 ^ (j - 53) := by
    rw [← zpow_one_add₀ two_ne_zero]
    congr 1
    omega
  obtain ⟨-, g, -, -, hbound⟩ := exists_shifts hE (show unitExponent M E ≤ j by omega)
  have hround := size_round_le_units s hE (B := 2 ^ g) (by
    rw [add_mul, Nat.cast_pow, Nat.cast_ofNat, ← hbound, hunit, hdouble, hhalf]
    linarith)
  rwa [Nat.cast_pow, Nat.cast_ofNat, ← hbound] at hround

/-- What a sum comes to before it is rounded. -/
theorem normalize_spec (M : Int) (E : Int) :
    Rounds (UnpackedFloat.normalize double M E .positive) (M.natAbs * 2 ^ E) ∧
      ∀ j : Int, -1022 ≤ j → (M.natAbs : ℚ) * 2 ^ E ≤ 2 ^ j + 2 ^ (j - 54) →
        size (UnpackedFloat.normalize double M E .positive) ≤ 2 ^ j := by
  have hround (s : Sign) (m : Nat) (hm : 0 < m) :
      Rounds (UnpackedFloat.round double s m E) (m * 2 ^ E) ∧
        ∀ j : Int, -1022 ≤ j → (m : ℚ) * 2 ^ E ≤ 2 ^ j + 2 ^ (j - 54) →
          size (UnpackedFloat.round double s m E) ≤ 2 ^ j := by
    obtain ⟨k, hround, hE, hvalue⟩ := exists_round s hm E
    rw [hround, ← hvalue]
    exact ⟨rounds_round s hE, fun j hj h => size_round_le_of_slack s hE hj h⟩
  rcases lt_trichotomy M 0 with hneg | rfl | hpos
  · have hcompare : compare M 0 = .lt := Int.compare_eq_lt.mpr hneg
    have habs : (-M).toNat = M.natAbs := by omega
    rw [UnpackedFloat.normalize, hcompare, ← habs]
    exact hround .negative (-M).toNat (by omega)
  · have hzero : ((0 : Int).natAbs : ℚ) * 2 ^ E = 0 := by
      rw [Int.natAbs_zero, Nat.cast_zero, zero_mul]
    rw [hzero]
    exact ⟨rounds_zero .positive, fun j _ _ => (zpow_pos two_pos j).le⟩
  · have hcompare : compare M 0 = .gt := Int.compare_eq_gt.mpr hpos
    have habs : M.toNat = M.natAbs := by omega
    rw [UnpackedFloat.normalize, hcompare, ← habs]
    exact hround .positive M.toNat (by omega)

theorem cast_apply (s : Sign) (n : Nat) : ((s.apply n : ℤ) : ℚ) = factor s * n := by
  cases s with
  | negative => exact (Int.cast_neg _).trans (neg_one_mul _).symm
  | positive => exact (one_mul _).symm

/-- A sum of two numbers as one number of units of the smaller one. -/
theorem exists_add {m m' : Nat} (s s' : Sign) (e e' : Int) (h : 0 < m) (h' : 0 < m') :
    ∃ (M : Int) (E : Int), UnpackedFloat.add double (.finite s m e h) (.finite s' m' e' h') =
        UnpackedFloat.normalize double M E .positive ∧
      (M : ℚ) * 2 ^ E = signed (.finite s m e h) + signed (.finite s' m' e' h') := by
  obtain ⟨k, hk⟩ : ∃ k : Nat, e = min e e' + k := ⟨(e - min e e').toNat, by omega⟩
  obtain ⟨k', hk'⟩ : ∃ k' : Nat, e' = min e e' + k' := ⟨(e' - min e e').toNat, by omega⟩
  have hshift : (e - min e e').toNat = k := by omega
  have hshift' : (e' - min e e').toNat = k' := by omega
  refine ⟨s.apply (m * 2 ^ k : ℕ) + s'.apply (m' * 2 ^ k' : ℕ), min e e', ?_, ?_⟩
  · simp only [UnpackedFloat.add, decreaseExponent, hshift, hshift', Nat.shiftLeft_eq]
  · have hpower : (2 : ℚ) ^ e = 2 ^ k * 2 ^ min e e' := by
      rw [← zpow_natCast, ← zpow_add₀ two_ne_zero, add_comm, ← hk]
    have hpower' : (2 : ℚ) ^ e' = 2 ^ k' * 2 ^ min e e' := by
      rw [← zpow_natCast, ← zpow_add₀ two_ne_zero, add_comm, ← hk']
    rw [Int.cast_add, cast_apply, cast_apply, signed, signed, hpower, hpower']
    push_cast
    ring

theorem rounds_add {u u' : UnpackedFloat} (hu : IsCanonical u) (hu' : IsCanonical u') :
    (∃ v ≤ size u + size u', Rounds (UnpackedFloat.add double u u') v) ∧
      ∀ j : Int, -1022 ≤ j → size u ≤ 2 ^ j → size u' ≤ 2 ^ (j - 54) →
        size (UnpackedFloat.add double u u') ≤ 2 ^ j := by
  rcases isCanonical_cases hu with ⟨s, rfl⟩ | ⟨s, m, e, h, rfl⟩
  · rcases isCanonical_cases hu' with ⟨s', rfl⟩ | ⟨s', m', e', h', rfl⟩
    · have hzero : ∃ t, UnpackedFloat.add double (.zero s) (.zero s') = .zero t := by
        cases s <;> cases s' <;> exact ⟨_, rfl⟩
      obtain ⟨t, ht⟩ := hzero
      rw [ht]
      exact ⟨⟨0, (add_zero (0 : ℚ)).ge, rounds_zero t⟩, fun j _ h _ => h⟩
    · refine ⟨⟨_, (zero_add _).ge, hu'.rounds⟩, fun j _ _ h => h.trans ?_⟩
      exact zpow_le_zpow_right₀ one_le_two (by omega)
  rcases isCanonical_cases hu' with ⟨s', rfl⟩ | ⟨s', m', e', h', rfl⟩
  · exact ⟨⟨_, (add_zero _).ge, hu.rounds⟩, fun j _ h _ => h⟩
  obtain ⟨M, E, hadd, hsum⟩ := exists_add s s' e e' h h'
  obtain ⟨hrounds, hslack⟩ := normalize_spec M E
  have hle : (M.natAbs : ℚ) * 2 ^ E ≤ size (.finite s m e h) + size (.finite s' m' e' h') := by
    have habs : (M.natAbs : ℚ) * 2 ^ E = |(M : ℚ) * 2 ^ E| := by
      rw [abs_mul, abs_of_pos (zpow_pos two_pos E : (0 : ℚ) < 2 ^ E), Nat.cast_natAbs, Int.cast_abs]
    rw [habs, hsum]
    refine (abs_add_le _ _).trans_eq ?_
    rw [abs_signed, abs_signed]
  rw [hadd]
  exact ⟨⟨_, hle, hrounds⟩, fun j hj hu hu' => hslack j hj (hle.trans (add_le_add hu hu'))⟩

/-- **Subtraction adds the number with the other sign.** -/
theorem sub_eq (u u' : UnpackedFloat) :
    UnpackedFloat.sub double u u' = UnpackedFloat.add double u (UnpackedFloat.neg u') := by
  have happly (s : Sign) (n : Int) : (-s).apply n = -s.apply n := by
    cases s
    · exact (neg_neg n).symm
    · rfl
  cases u with
  | finite s m e h =>
    cases u' with
    | finite s' m' e' h' =>
      simp only [UnpackedFloat.sub, UnpackedFloat.add, UnpackedFloat.neg, happly,
        ← sub_eq_add_neg]
    | notANumber => rfl
    | infinity s' => rfl
    | zero s' => rfl
  | notANumber => cases u' <;> rfl
  | infinity s => cases u' <;> rfl
  | zero s => cases u' <;> rfl

theorem isCanonical_neg {u : UnpackedFloat} (hu : IsCanonical u) :
    IsCanonical (UnpackedFloat.neg u) ∧ size (UnpackedFloat.neg u) = size u := by
  rcases isCanonical_cases hu with ⟨s, rfl⟩ | ⟨s, m, e, h, rfl⟩
  · exact ⟨trivial, rfl⟩
  · exact ⟨hu, rfl⟩

/-! ## Operations on floats -/

/-- The absolute value of a float that is finite. -/
def magnitude (x : Float) : ℚ := size x.toModel.unpack

theorem magnitude_nonneg (x : Float) : 0 ≤ magnitude x := size_nonneg _

theorem isFinite_of_isCanonical {x : Float} (h : IsCanonical x.toModel.unpack) :
    x.isFinite = true := by
  show x.toModel.unpack.isFinite = true
  rcases isCanonical_cases h with ⟨s, hx⟩ | ⟨s, m, e, hpos, hx⟩
  · rw [hx]
    rfl
  · rw [hx]
    rfl

theorem not_isInf_of_isFinite {x : Float} (h : x.isFinite = true) : ¬x.isInf = true := by
  rcases isCanonical_cases (isCanonical_unpack h).1 with ⟨s, hx⟩ | ⟨s, m, e, hpos, hx⟩
  · show ¬x.toModel.unpack.isInf = true
    rw [hx]
    exact Bool.false_ne_true
  · show ¬x.toModel.unpack.isInf = true
    rw [hx]
    exact Bool.false_ne_true

theorem Rounds.trans {u u' : UnpackedFloat} {v : ℚ} (h : Rounds u v) (h' : Rounds u' (size u)) :
    Rounds u' v :=
  ⟨h'.isCanonical, fun j hj hv => h'.upper j hj (h.upper j hj hv),
    fun i hi hv => h'.lower i hi (h.lower i hi hv)⟩

/-- **A result that is not too large** is what is packed of it. -/
theorem Rounds.pack_of_lt {u : UnpackedFloat} {v : ℚ} (h : Rounds u v)
    (hsize : size u < 2 ^ (1024 : ℤ)) : Rounds (pack u).unpack v := by
  rwa [unpack_pack h.isCanonical hsize]

/-- The largest power of two that is a float. -/
def top : ℚ := 2 ^ (1023 : ℤ)

theorem Rounds.size_lt {u : UnpackedFloat} {v : ℚ} (h : Rounds u v) (hv : v ≤ top) :
    size u < 2 ^ (1024 : ℤ) :=
  (h.upper 1023 (by norm_num) hv).trans_lt (zpow_lt_zpow_right₀ one_lt_two (by norm_num))

theorem Rounds.pack {u : UnpackedFloat} {v : ℚ} (h : Rounds u v) (hv : v ≤ top) :
    Rounds (pack u).unpack v := h.pack_of_lt (h.size_lt hv)

/-- **A float is a number up to rounding.** -/
abbrev Approximates (x : Float) (v : ℚ) : Prop := Rounds x.toModel.unpack v

/-- **A float is finite and within a bound.** -/
structure Within (x : Float) (bound : ℚ) : Prop where
  isFinite : x.isFinite = true
  magnitude_le : magnitude x ≤ bound

variable {x y : Float} {a b v : ℚ} {i j : Int}

theorem Within.isCanonical (hx : Within x a) : IsCanonical x.toModel.unpack :=
  (isCanonical_unpack hx.isFinite).1

theorem Within.mono (hx : Within x a) (h : a ≤ b) : Within x b :=
  ⟨hx.isFinite, hx.magnitude_le.trans h⟩

theorem Rounds.within (h : Approximates x v) (hj : -1074 ≤ j) (hv : v ≤ 2 ^ j) :
    Within x (2 ^ j) :=
  ⟨isFinite_of_isCanonical h.isCanonical, h.upper j hj hv⟩

theorem two_zpow_le_top (hj : j ≤ 1023) : (2 : ℚ) ^ j ≤ top := zpow_le_zpow_right₀ one_le_two hj

theorem approximates_mul (hx : Within x a) (hy : Within y b)
    (h : magnitude x * magnitude y ≤ top) : Approximates (x * y) (magnitude x * magnitude y) :=
  (rounds_mul hx.isCanonical hy.isCanonical).pack h

/-- **Products** are bounded by products of bounds. -/
theorem Within.mul (hx : Within x a) (hy : Within y b) (hlow : -1074 ≤ j) (hhigh : j ≤ 1023)
    (hab : a * b ≤ 2 ^ j) : Within (x * y) (2 ^ j) := by
  have hproduct : magnitude x * magnitude y ≤ 2 ^ j :=
    (mul_le_mul hx.magnitude_le hy.magnitude_le (magnitude_nonneg y)
      ((magnitude_nonneg x).trans hx.magnitude_le)).trans hab
  exact (approximates_mul hx hy (hproduct.trans (two_zpow_le_top hhigh))).within hlow hproduct

/-- **Quotients** are bounded if the divisor is not too small. -/
theorem Within.div (hx : Within x a) (hy : y.isFinite = true) (hb : 0 < b)
    (hle : b ≤ magnitude y) (hlow : -1074 ≤ j) (hhigh : j ≤ 1023) (hab : a ≤ 2 ^ j * b) :
    Within (x / y) (2 ^ j) := by
  have hpos : 0 < magnitude y := hb.trans_le hle
  have hquotient : magnitude x / magnitude y ≤ 2 ^ j := by
    rw [div_le_iff₀ hpos]
    calc magnitude x ≤ a := hx.magnitude_le
      _ ≤ 2 ^ j * b := hab
      _ ≤ 2 ^ j * magnitude y := mul_le_mul_of_nonneg_left hle (zpow_pos two_pos j).le
  have hrounds : Approximates (x / y) (magnitude x / magnitude y) :=
    (rounds_div hx.isCanonical (isCanonical_unpack hy).1 hpos).pack
      (hquotient.trans (two_zpow_le_top hhigh))
  exact hrounds.within hlow hquotient

/-- **Sums.** -/
theorem Within.add (hx : Within x a) (hy : Within y b) (hlow : -1074 ≤ j) (hhigh : j ≤ 1023)
    (hab : a + b ≤ 2 ^ j) : Within (x + y) (2 ^ j) := by
  obtain ⟨⟨v, hv, hrounds⟩, -⟩ := rounds_add hx.isCanonical hy.isCanonical
  have hsum : v ≤ 2 ^ j := (hv.trans (add_le_add hx.magnitude_le hy.magnitude_le)).trans hab
  have hpacked : Approximates (x + y) v := hrounds.pack (hsum.trans (two_zpow_le_top hhigh))
  exact hpacked.within hlow hsum

/-- **A sum that has become large** does not grow by small summands any more. -/
theorem Within.add_small (hx : Within x (2 ^ j)) (hy : Within y (2 ^ (j - 54)))
    (hlow : -1022 ≤ j) (hhigh : j ≤ 1022) : Within (x + y) (2 ^ j) := by
  obtain ⟨⟨v, -, hrounds⟩, hsteady⟩ := rounds_add hx.isCanonical hy.isCanonical
  have hle := hsteady j hlow hx.magnitude_le hy.magnitude_le
  have hsmall : size (UnpackedFloat.add double x.toModel.unpack y.toModel.unpack) <
      2 ^ (1024 : ℤ) := hle.trans_lt (zpow_lt_zpow_right₀ one_lt_two (by omega))
  have hpacked : (x + y).toModel.unpack = _ := unpack_pack hrounds.isCanonical hsmall
  refine ⟨isFinite_of_isCanonical (hpacked ▸ hrounds.isCanonical), ?_⟩
  rwa [magnitude, hpacked]

theorem Within.neg (hx : Within x a) : Within (-x) a := by
  obtain ⟨hneg, hsize⟩ := isCanonical_neg hx.isCanonical
  have hsmall := (isCanonical_unpack hx.isFinite).2
  rw [← hsize] at hsmall
  have hpacked : (-x).toModel.unpack = _ := unpack_pack hneg hsmall
  refine ⟨isFinite_of_isCanonical (hpacked ▸ hneg), ?_⟩
  rw [magnitude, hpacked, hsize]
  exact hx.magnitude_le

/-- **Differences** are bounded like sums. -/
theorem Within.sub (hx : Within x a) (hy : Within y b) (hlow : -1074 ≤ j) (hhigh : j ≤ 1023)
    (hab : a + b ≤ 2 ^ j) : Within (x - y) (2 ^ j) := by
  obtain ⟨hneg, hsize⟩ := isCanonical_neg hy.isCanonical
  obtain ⟨⟨v, hv, hrounds⟩, -⟩ := rounds_add hx.isCanonical hneg
  rw [hsize] at hv
  have hsum : v ≤ 2 ^ j := (hv.trans (add_le_add hx.magnitude_le hy.magnitude_le)).trans hab
  rw [← sub_eq] at hrounds
  have hpacked : Approximates (x - y) v := hrounds.pack (hsum.trans (two_zpow_le_top hhigh))
  exact hpacked.within hlow hsum

/-! ## Comparisons -/

/-- Floats with the same sign are compared like their sizes. -/
theorem compare_size {m m' : Nat} {e e' : Int} {h : 0 < m} {h' : 0 < m'} {s s' : Sign}
    (hu : IsCanonical (.finite s m e h)) (hu' : IsCanonical (.finite s' m' e' h')) :
    (compare e e').then (compare m m') =
      compare (size (.finite s m e h)) (size (.finite s' m' e' h')) := by
  -- a larger exponent outweighs the mantissa
  have hless {m m' : Nat} {e e' : Int} (hm : m < 2 ^ 53) (he : -1074 ≤ e)
      (hm' : 2 ^ 52 ≤ m' ∨ e' = -1074) (hlt : e < e') : (m : ℚ) * 2 ^ e < m' * 2 ^ e' := by
    have hfull : (2 ^ 52 : ℚ) ≤ m' := by exact_mod_cast hm'.resolve_right (by omega)
    have hmantissa : (m : ℚ) < 2 ^ 52 * 2 := by exact_mod_cast hm
    have hpower : (2 : ℚ) * 2 ^ e ≤ 2 ^ e' := by
      rw [← zpow_one_add₀ two_ne_zero]
      exact zpow_le_zpow_right₀ one_le_two (by omega)
    have hpos : (0 : ℚ) < 2 ^ e := zpow_pos two_pos e
    calc (m : ℚ) * 2 ^ e < 2 ^ 52 * 2 * 2 ^ e := mul_lt_mul_of_pos_right hmantissa hpos
      _ = 2 ^ 52 * (2 * 2 ^ e) := mul_assoc _ _ _
      _ ≤ m' * 2 ^ e' := mul_le_mul hfull hpower (by positivity) (Nat.cast_nonneg m')
  show _ = compare ((m : ℚ) * 2 ^ e) (m' * 2 ^ e')
  rcases lt_trichotomy e e' with hlt | rfl | hgt
  · rw [compare_lt_iff_lt.mpr hlt, compare_lt_iff_lt.mpr (hless hu.1 hu.2.1 hu'.2.2 hlt)]
    rfl
  · have hpos : (0 : ℚ) < 2 ^ e := zpow_pos two_pos e
    rw [compare_eq_iff_eq.mpr rfl]
    show compare m m' = _
    rcases lt_trichotomy m m' with hm | rfl | hm
    · rw [compare_lt_iff_lt.mpr hm, compare_lt_iff_lt.mpr]
      exact mul_lt_mul_of_pos_right (by exact_mod_cast hm) hpos
    · rw [compare_eq_iff_eq.mpr rfl, compare_eq_iff_eq.mpr rfl]
    · rw [compare_gt_iff_gt.mpr hm, compare_gt_iff_gt.mpr]
      exact mul_lt_mul_of_pos_right (by exact_mod_cast hm) hpos
  · rw [compare_gt_iff_gt.mpr hgt, compare_gt_iff_gt.mpr (hless hu'.1 hu'.2.1 hu.2.2 hgt)]
    rfl

theorem le_iff (x y : Float) :
    x ≤ y ↔ UnpackedFloat.le x.toModel.unpack y.toModel.unpack = true :=
  decide_eq_true_iff

/-- A float above zero. -/
def IsAbove (x : Float) : Prop :=
  IsCanonical x.toModel.unpack ∧ ∃ m e h, x.toModel.unpack = .finite .positive m e h

theorem IsAbove.isFinite (hx : IsAbove x) : x.isFinite = true := isFinite_of_isCanonical hx.1

theorem IsAbove.magnitude_pos (hx : IsAbove x) : 0 < magnitude x := by
  obtain ⟨-, m, e, h, hx⟩ := hx
  rw [magnitude, hx]
  exact mul_pos (by exact_mod_cast h) (zpow_pos two_pos e)

/-- The smallest float above zero. -/
theorem IsAbove.le_magnitude (hx : IsAbove x) : 2 ^ (-1074 : ℤ) ≤ magnitude x := by
  obtain ⟨hcanonical, m, e, h, hx⟩ := hx
  rw [hx] at hcanonical
  rw [magnitude, hx]
  have hone : (1 : ℚ) ≤ m := by exact_mod_cast h
  calc (2 : ℚ) ^ (-1074 : ℤ) ≤ 2 ^ e := zpow_le_zpow_right₀ one_le_two hcanonical.2.1
    _ ≤ m * 2 ^ e := le_mul_of_one_le_left (zpow_pos two_pos e).le hone

theorem isAbove_of_not_le (hx : x.isFinite = true) (h : ¬x ≤ 0) : IsAbove x := by
  have hcanonical := (isCanonical_unpack hx).1
  have hzero : (0 : Float).toModel.unpack = .zero .positive := by rfl
  rw [le_iff, hzero] at h
  refine ⟨hcanonical, ?_⟩
  rcases isCanonical_cases hcanonical with ⟨s, hx⟩ | ⟨s, m, e, hpos, hx⟩
  · rw [hx] at h
    exact absurd rfl h
  · cases s with
    | negative =>
      rw [hx] at h
      exact absurd rfl h
    | positive => exact ⟨m, e, hpos, hx⟩

/-- **Floats that are finite are compared like the numbers they stand for.** -/
theorem le_iff_signed {u u' : UnpackedFloat} (hu : IsCanonical u) (hu' : IsCanonical u') :
    UnpackedFloat.le u u' = true ↔ signed u ≤ signed u' := by
  have hpos (m : Nat) (e : Int) (h : 0 < m) : (0 : ℚ) < m * 2 ^ e :=
    mul_pos (by exact_mod_cast h) (zpow_pos two_pos e)
  have hpositive (m : Nat) (e : Int) (h : 0 < m) :
      signed (.finite .positive m e h) = m * 2 ^ e := one_mul _
  have hnegative (m : Nat) (e : Int) (h : 0 < m) :
      signed (.finite .negative m e h) = -(m * 2 ^ e) := neg_one_mul _
  have hzero (s : Sign) : signed (.zero s) = 0 := rfl
  rcases isCanonical_cases hu with ⟨s, rfl⟩ | ⟨s, m, e, h, rfl⟩
  · rcases isCanonical_cases hu' with ⟨s', rfl⟩ | ⟨s', m', e', h', rfl⟩
    · exact iff_of_true rfl le_rfl
    · cases s' with
      | positive =>
        rw [hzero, hpositive]
        exact iff_of_true rfl (hpos m' e' h').le
      | negative =>
        rw [hzero, hnegative]
        exact iff_of_false Bool.false_ne_true (not_le.mpr (neg_neg_of_pos (hpos m' e' h')))
  rcases isCanonical_cases hu' with ⟨s', rfl⟩ | ⟨s', m', e', h', rfl⟩
  · cases s with
    | positive =>
      rw [hzero, hpositive]
      exact iff_of_false Bool.false_ne_true (not_le.mpr (hpos m e h))
    | negative =>
      rw [hzero, hnegative]
      exact iff_of_true rfl (neg_neg_of_pos (hpos m e h)).le
  have hsize := compare_size hu hu'
  cases s with
  | positive =>
    cases s' with
    | positive =>
      show ((compare e e').then (compare m m')).isLE = true ↔ _
      rw [hsize, hpositive, hpositive, Ordering.isLE_iff_ne_gt]
      exact compare_le_iff_le
    | negative =>
      rw [hpositive, hnegative]
      exact iff_of_false Bool.false_ne_true
        (not_le.mpr ((neg_neg_of_pos (hpos m' e' h')).trans (hpos m e h)))
  | negative =>
    cases s' with
    | positive =>
      rw [hpositive, hnegative]
      exact iff_of_true rfl ((neg_neg_of_pos (hpos m e h)).trans (hpos m' e' h')).le
    | negative =>
      show ((compare e e').then (compare m m')).swap.isLE = true ↔ _
      rw [hsize, hnegative, hnegative, neg_le_neg_iff, Ordering.isLE_swap, Ordering.isGE_iff_ne_lt]
      exact compare_ge_iff_ge

theorem IsAbove.signed_eq (hx : IsAbove x) : signed x.toModel.unpack = magnitude x := by
  obtain ⟨-, m, e, h, hx⟩ := hx
  rw [magnitude, hx]
  exact one_mul _

/-- **What is not at most a float above zero** is larger. -/
theorem IsAbove.of_not_le (hy : IsAbove y) (hx : x.isFinite = true) (h : ¬x ≤ y) :
    IsAbove x ∧ magnitude y < magnitude x := by
  have hcanonical := (isCanonical_unpack hx).1
  have hzero : IsCanonical (0 : Float).toModel.unpack := trivial
  have hless : magnitude y < signed x.toModel.unpack := by
    rw [le_iff, le_iff_signed hcanonical hy.1, not_le] at h
    rwa [← hy.signed_eq]
  have habove : IsAbove x := by
    refine isAbove_of_not_le hx fun hle => ?_
    rw [le_iff, le_iff_signed hcanonical hzero] at hle
    exact absurd (hy.magnitude_pos.trans hless) (not_lt.mpr hle)
  exact ⟨habove, hless.trans_eq habove.signed_eq⟩

/-- **A float between two others** is no larger than both. -/
theorem magnitude_le_of_between {z : Float} (hx : x.isFinite = true) (hy : Within y a)
    (hz : Within z a) (hyx : y ≤ x) (hxz : x ≤ z) : magnitude x ≤ a := by
  have hcanonical := (isCanonical_unpack hx).1
  rw [le_iff, le_iff_signed hy.isCanonical hcanonical] at hyx
  rw [le_iff, le_iff_signed hcanonical hz.isCanonical] at hxz
  have hlow : -a ≤ signed y.toModel.unpack :=
    (abs_le.mp ((abs_signed _).trans_le hy.magnitude_le)).1
  have hhigh : signed z.toModel.unpack ≤ a :=
    (le_abs_self _).trans ((abs_signed _).trans_le hz.magnitude_le)
  rw [magnitude, ← abs_signed]
  exact abs_le.mpr ⟨hlow.trans hyx, hxz.trans hhigh⟩

end Fleet.Rounding
