import Fleet.Number.Binary64

/-!
# Decimal forms of a binary number

Two ways to write `m · 2^q` in decimal, both by exact integer arithmetic: `Decimal.shortest` has
the fewest digits that still read back as the same float, and `Decimal.rounded` has a fixed number
of significant digits.
-/

namespace Fleet

/-- The number `significand · 10^exponent`. -/
structure Decimal where
  significand : Nat
  exponent : Int
deriving DecidableEq, Repr

/-- Which of two equally near neighbours a rounding takes. -/
inductive Tie where
  | toEven
  | up
deriving DecidableEq, Repr

namespace Tie

/-- Whether a number halfway between `lower` and `lower + 1` goes to the upper one. -/
def goesUp (tie : Tie) (lower : Nat) : Bool :=
  match tie with
  | .toEven => lower % 2 = 1
  | .up => true

end Tie

/-- `num / den` rounded to a nearest integer, a half going where `tie` says. -/
def roundDiv (tie : Tie) (num den : Nat) : Nat :=
  let lower := num / den
  match compare (2 * (num % den)) den with
  | .lt => lower
  | .gt => lower + 1
  | .eq => if tie.goesUp lower then lower + 1 else lower

/-- Decimal digits are numbers below ten; `0 : Fin 10` and `Fin.ofNat 10` ask for this. -/
instance neZero_ten : @NeZero Nat .ofOfNat0 10 := ⟨by decide⟩

namespace Decimal

/-- The digits of a natural number, most significant first, in front of `ds`; zero has one
digit. -/
def digitsOnto (n : Nat) (ds : List (Fin 10)) : List (Fin 10) :=
  if n < 10 then Fin.ofNat 10 n :: ds else digitsOnto (n / 10) (Fin.ofNat 10 n :: ds)

/-- The digits of a natural number, most significant first; zero has one digit. -/
def digits (n : Nat) : List (Fin 10) := digitsOnto n []

/-- The number a string of digits denotes when it follows the digits of `n`. -/
def ofDigitsAfter (n : Nat) (ds : List (Fin 10)) : Nat :=
  ds.foldl (fun n d => 10 * n + d.val) n

/-- The number a string of digits denotes. -/
def ofDigits (ds : List (Fin 10)) : Nat := ofDigitsAfter 0 ds

theorem ofDigitsAfter_digitsOnto (n : Nat) (ds : List (Fin 10)) :
    ofDigitsAfter 0 (digitsOnto n ds) = ofDigitsAfter n ds := by
  induction n using Nat.strongRecOn generalizing ds with
  | ind n ih =>
    rw [digitsOnto]
    split
    · rename_i h
      simp [ofDigitsAfter, Fin.ofNat, Nat.mod_eq_of_lt h]
    · rename_i h
      rw [ih (n / 10) (by omega)]
      simp only [ofDigitsAfter, List.foldl_cons, Fin.ofNat]
      congr 1
      omega

/-- The digits of a number denote it. -/
theorem ofDigits_digits (n : Nat) : ofDigits (digits n) = n :=
  ofDigitsAfter_digitsOnto n []

/-- What a multiple of `2^q` is multiplied by to be compared with a multiple of `10^k`:
`x · 2^q ≤ c · 10^k` exactly when `x * binaryWeight q k ≤ c * decimalWeight q k`. -/
def binaryWeight (q k : Int) : Nat := 2 ^ q.toNat * 10 ^ (-k).toNat

/-- The other factor of `binaryWeight`. -/
def decimalWeight (q k : Int) : Nat := 10 ^ k.toNat * 2 ^ (-q).toNat

/-- An exponent `k` for which `10^k` is larger than `m · 2^q`: 0.30103 is the decimal logarithm of
two, and two more cover its rounding. -/
def ceiling (m : Nat) (q : Int) : Int :=
  ((m.log2 + 1 + q) * 30103) / 100000 + 2

/-- The numbers that round to a float, counted in parts of which both the float and the points of
the decimal grids are whole numbers: those at most `below` under `value` and at most `above` over
it, the ends included if `closed`. -/
structure Rounding where
  below : Nat
  value : Nat
  above : Nat
  closed : Bool

namespace Rounding

/-- The numbers that round to `m · 2^q`, in parts that suit the grid of `10^k`. The ends lie half
way to the neighbours, and are included when `m` is even; below a power of two the floats lie
twice as dense. -/
def of (m : Nat) (q k : Int) : Rounding :=
  let quarter := binaryWeight (q - 2) k
  { below := if m = 2 ^ 52 ∧ q ≠ -1074 then quarter else 2 * quarter
    value := 4 * m * quarter
    above := 2 * quarter
    closed := m % 2 = 0 }

/-- Whether a number at a distance from the float is within the reach on its side. -/
def reaches (r : Rounding) (reach distance : Nat) : Bool :=
  if r.closed then distance ≤ reach else distance < reach

/-- The multiple of `unit` that rounds to the float and lies nearest to it, if there is one. Only
the two neighbours of the float can be that multiple. -/
def onGrid? (tie : Tie) (r : Rounding) (unit : Nat) : Option Nat :=
  let rest := r.value % unit
  match r.reaches r.below rest, r.reaches r.above (unit - rest) with
  | true, true => some (roundDiv tie r.value unit)
  | true, false => some (r.value / unit)
  | false, true => some (r.value / unit + 1)
  | false, false => none

/-- The point that rounds to the float on the coarsest grid that has one, as a multiple of `10^n`,
starting from `point` on the grid of `10^n`, which is `unit` parts wide. Every step that leads to
a grid with a point is taken: points of a coarse grid lie on all the finer ones, so the grids with
a point come before those without. -/
def coarsest (tie : Tie) (r : Rounding) (unit n point : Nat) : List (Nat × Nat) → Nat × Nat
  | [] => (point, n)
  | (step, factor) :: steps =>
    let wider := factor * unit
    match r.onGrid? tie wider with
    | some c => coarsest tie r wider (n + step) c steps
    | none => coarsest tie r unit n point steps

end Rounding

/-- All of `m · 2^q` in decimal. -/
def exact (m : Nat) (q : Int) : Decimal :=
  if 0 ≤ q then ⟨m * 2 ^ q.toNat, 0⟩ else ⟨m * 5 ^ (-q).toNat, q⟩

/-- How many decimal places below its first digit a float is looked at. The grid there is finer
than any float needs. -/
def finest : Nat := 23

/-- The steps from the finest grid to coarser ones, each with its power of ten. Together they lead
beyond the first digit. -/
def steps : List (Nat × Nat) := [16, 8, 4, 2, 1].map fun n => (n, 10 ^ n)

/-- **The shortest decimal that reads back as `m · 2^q`,** for positive `m`; of several, the
nearest. The coarsest decimal grid with a point that rounds to the number is the one with the
fewest digits. -/
def shortest (tie : Tie) (m : Nat) (q : Int) : Decimal :=
  let k := ceiling m q - finest
  let unit := decimalWeight (q - 2) k
  let r := Rounding.of m q k
  match r.onGrid? tie unit with
  | none => exact m q
  | some point =>
    let (c, n) := r.coarsest tie unit 0 point steps
    ⟨c, k + n⟩

/-- The `n` exponents from `top` downwards. -/
def descending (top : Int) (n : Nat) : List Int :=
  (List.range n).map fun (i : Nat) => top - i

/-- The exponent of the first digit of `m · 2^q`, for positive `m`: the largest `e` with
`10^e ≤ m · 2^q`. -/
def magnitude (m : Nat) (q : Int) : Int :=
  ((descending (ceiling m q) 8).find? fun e =>
    decimalWeight q e ≤ m * binaryWeight q e).getD (ceiling m q)

/-- `m · 2^q` rounded to `n` significant digits, for positive `m` and `n`. A carry out of the
first digit leaves the digits `10…0` one place higher. -/
def rounded (tie : Tie) (n : Nat) (m : Nat) (q : Int) : Decimal :=
  let k := magnitude m q - (n - 1 : Nat)
  let c := roundDiv tie (m * binaryWeight q k) (decimalWeight q k)
  if c = 10 ^ n then ⟨10 ^ (n - 1), k + 1⟩ else ⟨c, k⟩

end Decimal

end Fleet
