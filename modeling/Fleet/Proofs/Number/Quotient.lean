import Fleet.Proofs.Number.Value

/-!
# Floors of quotients

A quotient below `2 ^ 52` is rounded to units of at most one half, so rounding does not carry it
past a multiple of one half (`keepsHalves_div`), and the floors of two quotients less than one half
apart are neighbours.  Beyond that the divisor is so small that dividends less than half of it apart
are the same float: `floorInt64_div_of_close`.  A floor comes to an end of the 64-bit range only if
the quotient is not in it: `floorInt64_inside_iff`.
-/

namespace Fleet.Rounding

open Float.Model Float.Model.UnpackedFloat

/-! ## Halves -/

/-- **Whether one number is on the same side of all multiples of one half as another,** or is itself
such a multiple. -/
def KeepsHalves (v w : ℚ) : Prop :=
  ∀ h : ℤ, (v ≤ h / 2 → w ≤ h / 2) ∧ (h / 2 ≤ v → h / 2 ≤ w)

variable {v w v' w' : ℚ}

theorem KeepsHalves.neg (hw : KeepsHalves v w) : KeepsHalves (-v) (-w) := by
  intro h
  have hneg := hw (-h)
  rw [Int.cast_neg, neg_div] at hneg
  exact ⟨fun hv => neg_le.mp (hneg.2 (neg_le.mp hv)), fun hv => le_neg.mp (hneg.1 (le_neg.mp hv))⟩

theorem KeepsHalves.factor_mul (hw : KeepsHalves v w) (s : Sign) :
    KeepsHalves (factor s * v) (factor s * w) := by
  cases s with
  | positive => simpa only [factor, one_mul] using hw
  | negative => simpa only [factor, neg_one_mul] using hw.neg

/-- Halves of whole numbers are enough for a number that is not negative. -/
theorem keepsHalves_of_nonneg (hv : 0 ≤ v) (hw : 0 ≤ w)
    (hhalves : ∀ n : ℕ, (v ≤ n / 2 → w ≤ n / 2) ∧ (n / 2 ≤ v → n / 2 ≤ w)) :
    KeepsHalves v w := by
  intro h
  rcases lt_or_ge h 0 with hneg | hnonneg
  · have hhalf : (h : ℚ) / 2 < 0 := div_neg_of_neg_of_pos (by exact_mod_cast hneg) two_pos
    exact ⟨fun hle => absurd (hv.trans hle) (not_le.mpr hhalf), fun _ => hhalf.le.trans hw⟩
  · obtain ⟨n, rfl⟩ := Int.eq_ofNat_of_zero_le hnonneg
    rw [Int.cast_natCast]
    exact hhalves n

theorem KeepsHalves.le_floor (hw : KeepsHalves v w) {n : ℤ} (hv : n ≤ v) : n ≤ ⌊w⌋ := by
  have hhalves := (hw (2 * n)).2
  rw [Int.cast_mul, Int.cast_ofNat, mul_div_cancel_left₀ _ two_ne_zero] at hhalves
  exact Int.le_floor.mpr (hhalves hv)

theorem KeepsHalves.floor_le (hw : KeepsHalves v w) {n : ℤ} (hv : v ≤ n + 3 / 2) :
    ⌊w⌋ ≤ n + 1 := by
  have hhalves := (hw (2 * n + 3)).1
  push_cast at hhalves
  have hle : w ≤ n + 3 / 2 := by linarith [hhalves (by linarith)]
  refine Int.lt_add_one_iff.mp (Int.floor_lt.mpr ?_)
  push_cast
  linarith

/-- **Numbers less than one half apart** become numbers whose floors are at most one apart. -/
theorem KeepsHalves.abs_floor_sub_le (hw : KeepsHalves v w) (hw' : KeepsHalves v' w')
    (hclose : |v - v'| < 1 / 2) : |⌊w⌋ - ⌊w'⌋| ≤ 1 := by
  wlog hle : v ≤ v' generalizing v v' w w'
  · rw [abs_sub_comm] at hclose ⊢
    exact this hw' hw hclose (not_le.mp hle).le
  obtain ⟨hlow, hhigh⟩ : (⌊v⌋ : ℚ) ≤ v ∧ v < ⌊v⌋ + 1 := ⟨Int.floor_le v, Int.lt_floor_add_one v⟩
  have hnear : v' - v < 1 / 2 := by rwa [abs_sub_comm, abs_of_nonneg (sub_nonneg.mpr hle)] at hclose
  have hfloor := hw.le_floor hlow
  have hfloor' := hw'.le_floor (hlow.trans hle)
  have hbound := hw.floor_le (n := ⌊v⌋) (by linarith)
  have hbound' := hw'.floor_le (n := ⌊v⌋) (by linarith)
  rw [abs_le]
  omega

/-! ## Quotients -/

/-- **Below `2 ^ 52` rounding keeps multiples of one half.** -/
theorem IsCut.keepsHalves {M : Nat} {E : Int} {accuracy : Accuracy} (hcut : IsCut v M E accuracy)
    (s : Sign) (hE : E ≤ unitExponent M E) (hsmall : v < 2 ^ (52 : ℤ)) :
    KeepsHalves v (size (roundWithAccuracy double s M E accuracy)) := by
  have hmultiple : (0 : ℚ) ≤ M * 2 ^ E := mul_nonneg (Nat.cast_nonneg M) (zpow_pos two_pos E).le
  have hunit : unitExponent M E ≤ -1 :=
    unitExponent_le_of_lt hE (by norm_num) (hcut.le.trans_lt hsmall)
  obtain ⟨k, hk⟩ : ∃ k : Nat, unitExponent M E = -1 - k :=
    ⟨(-1 - unitExponent M E).toNat, by omega⟩
  refine keepsHalves_of_nonneg (hmultiple.trans hcut.le) (size_nonneg _) fun n => ?_
  have hhalf : (n : ℚ) / 2 = (n * 2 ^ k : ℕ) * 2 ^ unitExponent M E := by
    rw [hk, zpow_sub₀ two_ne_zero, zpow_natCast, Nat.cast_mul, Nat.cast_pow, Nat.cast_ofNat,
      zpow_neg_one]
    field_simp
  rw [hhalf]
  exact ⟨hcut.size_round_le s hE, hcut.le_size_round s hE⟩

variable {x y b : Float}

/-- The number that a float above zero stands for. -/
theorem IsAbove.value_eq (hb : IsAbove b) : value b = magnitude b ∧ 0 < magnitude b := by
  refine ⟨?_, hb.magnitude_pos⟩
  rw [value_eq_signed hb.isFinite, hb.signed_eq]

/-- **And so does a division** whose quotient is that small. -/
theorem keepsHalves_div (hx : x.isFinite = true) (hb : IsAbove b)
    (hsmall : |value x / value b| < 2 ^ (52 : ℤ)) :
    (x / b).isFinite = true ∧ KeepsHalves (value x / value b) (value (x / b)) := by
  obtain ⟨hvalue, hpos⟩ := hb.value_eq
  rw [abs_div, abs_value hx, hvalue, abs_of_pos hpos] at hsmall
  have hcanonical := (isCanonical_unpack hx).1
  obtain ⟨-, m', e', h', hb'⟩ := hb
  have hdiv : (x / b).toModel.unpack =
      (pack (UnpackedFloat.div double x.toModel.unpack b.toModel.unpack)).unpack := rfl
  rcases isCanonical_cases hcanonical with ⟨s, hx'⟩ | ⟨s, m, e, h, hx'⟩
  · have hzero : (x / b).toModel.unpack = .zero (s / .positive) := by
      rw [hdiv, hx', hb']
      exact unpack_pack_zero _
    have hfinite : (x / b).isFinite = true :=
      isFinite_of_isCanonical (hzero ▸ (trivial : IsCanonical (.zero (s / .positive))))
    refine ⟨hfinite, ?_⟩
    rw [value_eq_signed hx, value_eq_signed hfinite, hx', hzero]
    have hnothing : signed (.zero s) / value b = 0 := zero_div _
    rw [hnothing]
    exact fun _ => ⟨id, id⟩
  · obtain ⟨M, E, accuracy, hE, hcut, hround⟩ := exists_div s .positive e e' h h'
    have hsign : s / .positive = s := by cases s <;> rfl
    rw [← hx', ← hb', hsign] at hround
    rw [← hx', ← hb'] at hcut
    obtain ⟨hrounded, -⟩ := round_eq s accuracy hE
    have hhalves := hcut.keepsHalves s hE hsmall
    have hin : size (roundWithAccuracy double s M E accuracy) < 2 ^ (1024 : ℤ) := by
      have hbound : ((2 ^ 53 : ℤ) : ℚ) / 2 = 2 ^ (52 : ℤ) := by norm_num
      have hle := (hhalves (2 ^ 53)).1
      rw [hbound] at hle
      exact (hle hsmall.le).trans_lt (zpow_lt_zpow_right₀ one_lt_two (by norm_num))
    have hquotient : (x / b).toModel.unpack = roundWithAccuracy double s M E accuracy := by
      rw [hdiv, hround]
      exact unpack_pack hrounded hin
    have hfinite : (x / b).isFinite = true := isFinite_of_isCanonical (hquotient ▸ hrounded)
    have hsigned : signed x.toModel.unpack = factor s * magnitude x := by
      rw [magnitude, hx']
      rfl
    refine ⟨hfinite, ?_⟩
    rw [value_eq_signed hx, value_eq_signed hfinite, hquotient, signed_round, hvalue, hsigned,
      mul_div_assoc]
    exact hhalves.factor_mul s

/-! ## Sums of 64-bit numbers -/

/-- A sum is exact if and only if it is in the range. -/
theorem toInt_add_eq_iff (a b : Int64) : (a + b).toInt = a.toInt + b.toInt ↔
    -2 ^ 63 ≤ a.toInt + b.toInt ∧ a.toInt + b.toInt < 2 ^ 63 := by
  constructor
  · intro hsum
    have hlow := (a + b).le_toInt
    have hhigh := (a + b).toInt_lt
    omega
  · rintro ⟨hlow, hhigh⟩
    rw [Int64.toInt_add]
    exact Int.bmod_eq_of_le (by omega) (by omega)

/-- A number at most one away is a sum. -/
theorem exists_eq_add_of_abs_sub_le {a b : Int64} (h : |b.toInt - a.toInt| ≤ 1) :
    ∃ δ ∈ [(-1 : Int64), 0, 1], b = a + δ := by
  have hlow := b.le_toInt
  have hhigh := b.toInt_lt
  have hsum {δ : Int64} (hδ : b.toInt = a.toInt + δ.toInt) : b = a + δ := by
    rw [← Int64.toInt_inj, hδ, eq_comm, toInt_add_eq_iff]
    omega
  rw [abs_le] at h
  obtain hstep | hstep | hstep : b.toInt = a.toInt + -1 ∨ b.toInt = a.toInt + 0 ∨
      b.toInt = a.toInt + 1 := by omega
  · exact ⟨-1, by simp, hsum hstep⟩
  · exact ⟨0, by simp, hsum hstep⟩
  · exact ⟨1, by simp, hsum hstep⟩

/-- Integers at most one apart stay so when they are held at the ends of the range. -/
theorem exists_ofIntClamp_eq_add {i j : ℤ} (hstep : |i - j| ≤ 1) :
    ∃ δ ∈ [(-1 : Int64), 0, 1], Int64.ofIntClamp j = Int64.ofIntClamp i + δ := by
  refine exists_eq_add_of_abs_sub_le ?_
  rw [toInt_ofIntClamp, toInt_ofIntClamp, abs_le]
  rw [abs_le] at hstep
  omega

/-! ## Cells of a line -/

/-- A dividend that is large beside the divisor, and another close to it. -/
theorem unpack_eq_of_large (hx : x.isFinite = true) (hy : y.isFinite = true) (hb : IsAbove b)
    (hclose : |value x - value y| < value b / 2) (hlarge : 2 ^ (52 : ℤ) ≤ |value x / value b|) :
    y.toModel.unpack = x.toModel.unpack := by
  obtain ⟨hvalue, hpos⟩ := hb.value_eq
  rw [abs_div, abs_value hx, hvalue, abs_of_pos hpos, le_div_iff₀ hpos] at hlarge
  rw [value_eq_signed hx, value_eq_signed hy, hvalue] at hclose
  refine (isCanonical_unpack hx).1.eq_of_close (isCanonical_unpack hy).1 ?_
  calc 2 ^ 53 * |signed x.toModel.unpack - signed y.toModel.unpack|
      < 2 ^ 53 * (magnitude b / 2) := mul_lt_mul_of_pos_left hclose (by positivity)
    _ = 2 ^ (52 : ℤ) * magnitude b := by
        norm_num
        ring
    _ ≤ size x.toModel.unpack := hlarge

/-- **Floors of quotients of numbers less than half a divisor apart** are the same or neighbours. -/
theorem floorInt64_div_of_close (hx : x.isFinite = true) (hy : y.isFinite = true) (hb : IsAbove b)
    (hclose : |value x - value y| < value b / 2) :
    ∃ δ ∈ [(-1 : Int64), 0, 1], (Binary64.ofFloat (y / b)).floorInt64 =
      (Binary64.ofFloat (x / b)).floorInt64 + δ := by
  have hsame (hunpack : y.toModel.unpack = x.toModel.unpack) : y / b = x / b :=
    congrArg (fun u => Float.ofModel (pack (UnpackedFloat.div double u b.toModel.unpack))) hunpack
  by_cases hsmall : |value x / value b| < 2 ^ (52 : ℤ)
  swap
  · rw [hsame (unpack_eq_of_large hx hy hb hclose (not_lt.mp hsmall))]
    exact ⟨0, by simp, (Int64.add_zero _).symm⟩
  by_cases hsmall' : |value y / value b| < 2 ^ (52 : ℤ)
  swap
  · rw [abs_sub_comm] at hclose
    rw [hsame (unpack_eq_of_large hy hx hb hclose (not_lt.mp hsmall')).symm]
    exact ⟨0, by simp, (Int64.add_zero _).symm⟩
  obtain ⟨hfinite, hhalves⟩ := keepsHalves_div hx hb hsmall
  obtain ⟨hfinite', hhalves'⟩ := keepsHalves_div hy hb hsmall'
  obtain ⟨hvalue, hpos⟩ := hb.value_eq
  rw [floorInt64_eq hfinite, floorInt64_eq hfinite']
  refine exists_ofIntClamp_eq_add (hhalves.abs_floor_sub_le hhalves' ?_)
  rw [← sub_div, abs_div, hvalue, abs_of_pos hpos, div_lt_iff₀ hpos, ← hvalue]
  linarith

/-! ## Quotients in the range -/

/-- Whether a quotient is below `2 ^ 63` in absolute value. -/
def InRange (q : Float) : Prop := q.isFinite = true ∧ |value q| < 2 ^ (63 : ℤ)

/-- Floats below `2 ^ 63` stay well below it, for their units are large there. -/
theorem IsCanonical.size_le_of_lt {u : UnpackedFloat} (hu : IsCanonical u)
    (h : size u < 2 ^ (63 : ℤ)) : size u ≤ 2 ^ 63 - 2 ^ 10 := by
  rcases isCanonical_cases hu with ⟨s, rfl⟩ | ⟨s, m, e, hpos, rfl⟩
  · show (0 : ℚ) ≤ _
    norm_num
  obtain ⟨hm, -, hlead⟩ := hu
  rcases le_or_gt e 10 with he | he
  · have hmantissa : (m : ℚ) ≤ 2 ^ 53 - 1 := by
      have hle : m + 1 ≤ 2 ^ 53 := hm
      rw [le_sub_iff_add_le]
      exact_mod_cast hle
    calc (m : ℚ) * 2 ^ e ≤ m * 2 ^ (10 : ℤ) :=
          mul_le_mul_of_nonneg_left (zpow_le_zpow_right₀ one_le_two he) (Nat.cast_nonneg m)
      _ ≤ (2 ^ 53 - 1) * 2 ^ (10 : ℤ) :=
          mul_le_mul_of_nonneg_right hmantissa (zpow_pos two_pos _).le
      _ = 2 ^ 63 - 2 ^ 10 := by norm_num
  · -- then all 53 bits are taken
    have hmantissa : ((2 ^ 52 : ℕ) : ℚ) ≤ m := by exact_mod_cast hlead.resolve_right (by omega)
    have hle : (2 : ℚ) ^ (63 : ℤ) ≤ m * 2 ^ e := by
      calc (2 : ℚ) ^ (63 : ℤ) = (2 ^ 52 : ℕ) * 2 ^ (11 : ℤ) := by norm_num
        _ ≤ m * 2 ^ (11 : ℤ) := mul_le_mul_of_nonneg_right hmantissa (zpow_pos two_pos _).le
        _ ≤ m * 2 ^ e :=
            mul_le_mul_of_nonneg_left (zpow_le_zpow_right₀ one_le_two he) (Nat.cast_nonneg m)
    exact absurd h (not_lt.mpr hle)

/-- **Nor do their floors come to the ends of the range.** -/
theorem abs_value_lt_iff {q : Float} (hq : q.isFinite = true) :
    |value q| < 2 ^ (63 : ℤ) ↔ -2 ^ 63 < ⌊value q⌋ ∧ ⌊value q⌋ < 2 ^ 63 - 1 := by
  constructor
  · intro hlt
    have hle : |value q| ≤ 2 ^ 63 - 2 ^ 10 := by
      rw [abs_value hq] at hlt ⊢
      exact (isCanonical_unpack hq).1.size_le_of_lt hlt
    obtain ⟨hlow, hhigh⟩ := abs_le.mp hle
    have hfloor : -2 ^ 63 + 2 ^ 10 ≤ ⌊value q⌋ := Int.le_floor.mpr (by push_cast; linarith)
    exact ⟨by omega, Int.floor_lt.mpr (by push_cast; linarith)⟩
  · rintro ⟨hlow, hhigh⟩
    have hlow' : (-2 ^ 63 + 1 : ℚ) ≤ ⌊value q⌋ := by exact_mod_cast hlow
    have hhigh' : (⌊value q⌋ : ℚ) + 1 < 2 ^ 63 := by
      have hlt : ⌊value q⌋ + 1 < 2 ^ 63 := by omega
      exact_mod_cast hlt
    have hfloor := Int.floor_le (value q)
    have hnext := Int.lt_floor_add_one (value q)
    rw [abs_lt, show (2 : ℚ) ^ (63 : ℤ) = 2 ^ 63 from zpow_natCast 2 63]
    exact ⟨by linarith, by linarith⟩

/-- **A 64-bit floor is strictly inside the range** if and only if the number is in it. -/
theorem floorInt64_inside_iff {q : Float} (hq : q.isFinite = true ∨ q.isInf = true) :
    (Int64.minValue < (Binary64.ofFloat q).floorInt64 ∧
      (Binary64.ofFloat q).floorInt64 < Int64.maxValue) ↔ InRange q := by
  rcases hq with hfinite | hinf
  · have hmin : Int64.minValue.toInt = -2 ^ 63 := rfl
    have hmax : Int64.maxValue.toInt = 2 ^ 63 - 1 := rfl
    rw [InRange, abs_value_lt_iff hfinite, and_iff_right hfinite, floorInt64_eq hfinite,
      Int64.lt_iff_toInt_lt, Int64.lt_iff_toInt_lt, toInt_ofIntClamp, hmin, hmax]
    omega
  · obtain ⟨negative, hread⟩ := Binary64.infinite_of_isInf hinf
    have hinfinite : ¬InRange q := fun h => not_isInf_of_isFinite h.1 hinf
    rw [hread, iff_false_right hinfinite]
    cases negative <;> decide

/-- Quotients by a float above zero are finite or infinite. -/
theorem isFinite_or_isInf_div (hx : x.isFinite = true) (hb : IsAbove b) :
    (x / b).isFinite = true ∨ (x / b).isInf = true := by
  have hrounds := rounds_div (isCanonical_unpack hx).1 (isCanonical_unpack hb.isFinite).1
    hb.magnitude_pos
  exact isFinite_or_isInf_unpack_pack hrounds.isCanonical

end Fleet.Rounding
