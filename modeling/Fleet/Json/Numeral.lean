import Fleet.Json.Value

/-!
# Numbers in JSON texts

Writing a float takes its shortest digits. Reading one is cheaper than rounding correctly: as many
digits as fit 64 bits are read as an integer, which is then multiplied or divided once by a power
of ten. With few digits and a small exponent the result is the nearest float.
-/

namespace Fleet

namespace Numeral

/-- The numeral of an integer. -/
def ofInt (n : Int) : Numeral := { negative := n < 0, whole := n.natAbs }

/-- The integer that a numeral without point and exponent stands for. Minus zero is no integer. -/
def int? (n : Numeral) : Option Int :=
  if n.fraction.isEmpty && n.exponent.isNone then
    if n.negative then if n.whole = 0 then none else some (-n.whole) else some n.whole
  else none

/-- The least decimal exponent that is still written positionally. -/
def leastPositional : Int := -5

/-- The greatest decimal exponent that is still written positionally. -/
def greatestPositional : Int := 15

/-- The numeral of the decimal `d`: positional with at least one digit after the point, or for
very small and very large numbers one digit, the others after a point, and an exponent. -/
def ofDecimal (negative : Bool) (d : Decimal) : Numeral :=
  let ds := Decimal.digits d.significand
  let e : Int := d.exponent + (ds.length - 1 : Nat)
  if leastPositional ≤ e ∧ e ≤ greatestPositional then
    let places := (-d.exponent).toNat
    let whole := Decimal.ofDigits (ds.take (ds.length - places)) * 10 ^ d.exponent.toNat
    let fraction := List.replicate (places - ds.length) 0 ++ ds.drop (ds.length - places)
    { negative, whole, fraction := if places = 0 then [0] else fraction }
  else
    { negative, whole := Decimal.ofDigits (ds.take 1), fraction := ds.drop 1, exponent := some e }

/-- The numeral with the fewest digits of a finite float. -/
def ofFloat? (x : Float) : Option Numeral :=
  match Binary64.ofFloat x with
  | .finite negative m q =>
    if m = 0 then some { negative, whole := 0, fraction := [0] }
    else some (ofDecimal negative (Decimal.shortest .toEven m q))
  | _ => none

/-- Digits are taken in as long as the number stays below this bound. -/
def digitBound : Nat := 2 ^ 64

/-- The longest leading part of a number that stays below the bound, and how many digits follow
it. -/
def leading (n : Nat) : Nat × Nat :=
  if n < digitBound then (n, 0)
  else let (kept, dropped) := leading (n / 10); (kept, dropped + 1)
termination_by n
decreasing_by unfold digitBound at *; omega

/-- Fraction digits taken in after `n`, each lowering the exponent `e`, until one does not fit. -/
def takeIn (n : Nat) (e : Int) : List (Fin 10) → Nat × Int
  | [] => (n, e)
  | d :: ds => if 10 * n + d.val < digitBound then takeIn (10 * n + d.val) (e - 1) ds else (n, e)

/-- The significant digits of a numeral as one number below the bound, and the power of ten that
goes with it. -/
def significant (n : Numeral) : Nat × Int :=
  let (kept, dropped) := leading n.whole
  let (digits, e) := takeIn kept dropped n.fraction
  (digits, e + n.exponent.getD 0)

/-- The largest power of ten that is a float. -/
def maxPower : Nat := 308

/-- A power of ten. -/
def power (n : Nat) : Float := Float.ofScientific 1 false n

/-- `x` divided by `10^n`. The largest power is divided out first. -/
def divide (x : Float) (n : Nat) : Float :=
  if n ≤ maxPower then x / power n
  else if x == 0 then x
  else divide (x / power maxPower) (n - maxPower)
termination_by n
decreasing_by unfold maxPower at *; omega

/-- `x` times `10^e`; nothing if the result is too large. -/
def scale? (x : Float) (e : Int) : Option Float :=
  if e < 0 then some (divide x e.natAbs)
  else if e.natAbs ≤ maxPower then
    let y := x * power e.natAbs
    if y.isInf then none else some y
  else if x == 0 then some x
  else none

/-- **The float that a numeral is read as.** A numeral too large for a float is none. -/
def float? (n : Numeral) : Option Float :=
  let (digits, e) := n.significant
  (scale? (UInt64.ofNat digits).toFloat e).map fun x => if n.negative then -x else x

end Numeral

namespace Json

/-- The value of a float; a number that is not finite has none and is written as null. -/
def float (x : Float) : Json :=
  match Numeral.ofFloat? x with
  | some n => .number n
  | none => .null

/-- The value of an integer. -/
def int (n : Int) : Json := .number (Numeral.ofInt n)

end Json

end Fleet
