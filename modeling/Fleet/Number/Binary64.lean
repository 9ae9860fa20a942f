/-!
# Binary64 numbers, taken apart

A `Float` is read off its bit pattern as a signed multiple of a power of two. From that reading
come its floor, its place in the total order of floats, and the exact fraction from which its
decimal texts are made, all in integer arithmetic.
-/

namespace Fleet

-- powers are the core library's, whatever else is in scope
attribute [instance (high), default_instance high] instPowNat

/-- An integer held at the ends of the 64-bit range. -/
theorem toInt_ofIntClamp (i : Int) :
    (Int64.ofIntClamp i).toInt = max (-2 ^ 63) (min i (2 ^ 63 - 1)) := by
  have hmin : Int64.minValue.toInt = -2 ^ 63 := rfl
  have hmax : Int64.maxValue.toInt = 2 ^ 63 - 1 := rfl
  unfold Int64.ofIntClamp
  split
  · split
    · rw [Int64.toInt_ofIntLE]
      omega
    · omega
  · omega

/-- **What a 64-bit float stands for.** `finite s m q` is the number `± m · 2^q`, negative when
`s` holds; zero keeps its sign. -/
inductive Binary64 where
  | nan
  | infinite (negative : Bool)
  | finite (negative : Bool) (significand : Nat) (exponent : Int)
deriving DecidableEq, Repr

namespace Binary64

/-- The number a 64-bit pattern encodes: one sign bit, eleven bits of biased exponent, fifty-two
bits of fraction. -/
def ofBits (bits : UInt64) : Binary64 :=
  let word : Nat := bits.toNat
  let negative : Bool := 2 ^ 63 ≤ word
  let biased : Nat := word / 2 ^ 52 % 2 ^ 11
  let fraction : Nat := word % 2 ^ 52
  if biased = 2047 then
    if fraction = 0 then .infinite negative else .nan
  else if biased = 0 then
    .finite negative fraction (-1074)
  else
    .finite negative (2 ^ 52 + fraction) ((biased : Int) - 1075)

/-- The number a float stands for. -/
def ofFloat (x : Float) : Binary64 := ofBits x.toBits

/-- The greatest integer at most `± m · 2^q`. -/
def floorInt (negative : Bool) (m : Nat) (q : Int) : Int :=
  let signed : Int := if negative then -m else m
  if 0 ≤ q then signed * 2 ^ q.toNat else signed / 2 ^ (-q).toNat

/-- The floor as a 64-bit integer. Values out of range saturate at the ends of the range, and NaN
gives zero. -/
def floorInt64 : Binary64 → Int64
  | .nan => 0
  | .infinite negative => if negative then Int64.minValue else Int64.maxValue
  | .finite negative m q => Int64.ofIntClamp (floorInt negative m q)

/-- Place of a float in the total order of floats: `-∞`, the negative numbers, `-0`, `0`, the
positive numbers, `∞`, and NaN last. Equal places belong to equal bit patterns only. -/
def rank (x : Float) : Int :=
  let word : Int := x.toBits.toNat
  if word < 2 ^ 63 then word else 2 ^ 63 - 1 - word

end Binary64

end Fleet
