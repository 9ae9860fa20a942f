import Mathlib.Algebra.Order.Field.Power
import Mathlib.Algebra.Order.Field.Rat
import Mathlib.Tactic.Linarith
import Mathlib.Tactic.Positivity
import Mathlib.Tactic.Ring
import Fleet.Number.Decimal

/-!
# The size of shortest decimals

The shortest decimal of a float lies between the middles to its neighbours; here only that it is not
above the upper one: `value_shortest_le`.
-/

namespace Fleet.Decimal

/-- The number that a decimal stands for. -/
def value (d : Decimal) : ℚ := d.significand * 10 ^ d.exponent

/-- Rounding a quotient gives one of its two neighbours. -/
theorem roundDiv_cases (tie : Tie) (num den : Nat) :
    roundDiv tie num den = num / den ∨ roundDiv tie num den = num / den + 1 := by
  unfold roundDiv
  dsimp only
  split
  · exact .inl rfl
  · exact .inr rfl
  · split
    · exact .inr rfl
    · exact .inl rfl

namespace Rounding

theorem le_of_reaches {r : Rounding} {reach distance : Nat}
    (h : r.reaches reach distance = true) : distance ≤ reach := by
  unfold reaches at h
  split at h
  · exact of_decide_eq_true h
  · exact (of_decide_eq_true h).le

/-- **A point of a grid that rounds to the float** is not too large. -/
theorem onGrid?_le {tie : Tie} {r : Rounding} {unit c : Nat} (h : r.onGrid? tie unit = some c) :
    c * unit ≤ r.value + r.above := by
  have hlower : r.value / unit * unit ≤ r.value + r.above :=
    (Nat.div_mul_le_self _ _).trans (Nat.le_add_right _ _)
  have hupper (hreach : r.reaches r.above (unit - r.value % unit) = true) :
      (r.value / unit + 1) * unit ≤ r.value + r.above := by
    have hdistance := le_of_reaches hreach
    have hvalue := Nat.div_add_mod r.value unit
    rw [Nat.succ_mul, Nat.mul_comm]
    omega
  unfold onGrid? at h
  dsimp only at h
  split at h
  · cases h
    rcases roundDiv_cases tie r.value unit with heq | heq
    · rw [heq]
      exact hlower
    · rw [heq]
      exact hupper ‹_›
  · cases h
    exact hlower
  · cases h
    exact hupper ‹_›
  · cases h

/-- **The point found on the coarsest grid** is not too large either. -/
theorem coarsest_le {tie : Tie} {r : Rounding} {steps : List (Nat × Nat)}
    (hsteps : ∀ s ∈ steps, s.2 = 10 ^ s.1) {unit n point : Nat}
    (h : point * unit ≤ r.value + r.above) :
    ∃ k, (r.coarsest tie unit n point steps).2 = n + k ∧
      (r.coarsest tie unit n point steps).1 * (10 ^ k * unit) ≤ r.value + r.above := by
  induction steps generalizing unit n point with
  | nil => exact ⟨0, rfl, by rwa [pow_zero, one_mul]⟩
  | cons s steps ih =>
    obtain ⟨step, factor⟩ := s
    obtain rfl : factor = 10 ^ step := hsteps _ List.mem_cons_self
    replace ih := @ih fun s hs => hsteps s (List.mem_cons_of_mem _ hs)
    rw [coarsest]
    split
    · rename_i c hc
      obtain ⟨k, hk, hle⟩ := ih (n := n + step) (onGrid?_le hc)
      refine ⟨step + k, by omega, ?_⟩
      rwa [pow_add, mul_comm (10 ^ step) (10 ^ k), mul_assoc]
    · exact ih h

end Rounding

/-- Decimal and binary numbers are compared by these weights. -/
theorem weights_eq (q k : Int) :
    ∃ w : ℚ, 0 < w ∧ (binaryWeight q k : ℚ) = 2 ^ q * w ∧ (decimalWeight q k : ℚ) = 10 ^ k * w := by
  refine ⟨2 ^ (-q).toNat * 10 ^ (-k).toNat, by positivity, ?_, ?_⟩
  · have htwo : (2 : ℚ) ^ q.toNat = 2 ^ q * 2 ^ (-q).toNat := by
      rw [← zpow_natCast, ← zpow_natCast, ← zpow_add₀ two_ne_zero]
      congr 1
      omega
    rw [binaryWeight, Nat.cast_mul, Nat.cast_pow, Nat.cast_pow, Nat.cast_ofNat, Nat.cast_ofNat,
      htwo, mul_assoc]
  · have hten : (10 : ℚ) ^ k.toNat = 10 ^ k * 10 ^ (-k).toNat := by
      rw [← zpow_natCast, ← zpow_natCast, ← zpow_add₀ (by norm_num)]
      congr 1
      omega
    rw [decimalWeight, Nat.cast_mul, Nat.cast_pow, Nat.cast_pow, Nat.cast_ofNat, Nat.cast_ofNat,
      hten]
    ring

theorem value_exact (m : Nat) (q : Int) : (exact m q).value = m * 2 ^ q := by
  unfold exact
  split
  · rename_i hq
    obtain ⟨n, rfl⟩ := Int.eq_ofNat_of_zero_le hq
    simp [value]
  · rename_i hq
    obtain ⟨n, hn⟩ : ∃ n : Nat, q = -n := ⟨(-q).toNat, by omega⟩
    subst hn
    have hnat : (- -(n : Int)).toNat = n := by omega
    have hten : (5 : ℚ) ^ n * 2 ^ n = 10 ^ n := by
      rw [← mul_pow]
      norm_num
    rw [value, hnat, Nat.cast_mul, Nat.cast_pow, Nat.cast_ofNat, zpow_neg, zpow_neg, zpow_natCast,
      zpow_natCast, mul_assoc, ← hten, mul_inv, mul_inv_cancel_left₀ (by positivity)]

/-- **The shortest decimal of a float is at most half way to the next one.** -/
theorem value_shortest_le (tie : Tie) (m : Nat) (q : Int) :
    (shortest tie m q).value ≤ (m + 1 / 2) * 2 ^ q := by
  have hexact : (exact m q).value ≤ (m + 1 / 2) * 2 ^ q := by
    rw [value_exact]
    exact mul_le_mul_of_nonneg_right (by linarith) (zpow_pos two_pos q).le
  unfold shortest
  dsimp only
  generalize hk : ceiling m q - finest = k
  split
  · exact hexact
  rename_i point hpoint
  have hsteps : ∀ s ∈ steps, s.2 = 10 ^ s.1 := by
    intro s hs
    obtain ⟨n, -, rfl⟩ := List.mem_map.mp hs
    rfl
  obtain ⟨j, hj, hle⟩ := Rounding.coarsest_le hsteps (n := 0) (Rounding.onGrid?_le hpoint)
  generalize Rounding.coarsest tie _ _ _ _ _ = found at hj hle
  obtain ⟨c, n⟩ := found
  obtain rfl : n = j := hj.trans (Nat.zero_add j)
  obtain ⟨w, hw, hbinary, hdecimal⟩ := weights_eq (q - 2) k
  have hcast : (c : ℚ) * (10 ^ n * (10 ^ k * w)) ≤
      4 * m * (2 ^ (q - 2) * w) + 2 * (2 ^ (q - 2) * w) := by
    rw [← hbinary, ← hdecimal]
    exact_mod_cast hle
  have hten : (10 : ℚ) ^ (k + n) = 10 ^ n * 10 ^ k := by
    rw [zpow_add₀ (by norm_num), zpow_natCast, mul_comm]
  have htwo : (2 : ℚ) ^ q = 4 * 2 ^ (q - 2) := by
    rw [zpow_sub₀ two_ne_zero]
    ring
  rw [value]
  dsimp only
  rw [hten, htwo, ← mul_le_mul_iff_left₀ hw]
  linarith

end Fleet.Decimal
