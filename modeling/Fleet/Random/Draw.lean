import Fleet.Number.Binary64
import Fleet.Random.Chacha

/-!
# Drawing random values

Integers and floats from the words of the generator. A draw that must fall into a range is
repeated until it does; the repetitions are bounded, far beyond any that occur.
-/

namespace Fleet

/-- **A random value:** made from the generator, which moves on. -/
abbrev Draw (α : Type) : Type := StateM Random α

namespace Draw

/-- A word of 32 bits. -/
def word : Draw UInt32 := modifyGet Random.next

/-- Two words as 64 bits, the low one first. -/
def word64 : Draw UInt64 := do
  let low ← word
  let high ← word
  return (high.toUInt64 <<< 32) ||| low.toUInt64

/-- How often a draw is repeated at most. -/
def patience : Nat := 1000

/-- Repeats a draw until it is accepted. The last one is taken as it comes. -/
def repeatUntil {α : Type} (accept : α → Bool) (draw : Draw α) : Nat → Draw α
  | 0 => draw
  | n + 1 => do
    let a ← draw
    if accept a then return a else repeatUntil accept draw n

/-- The float with the sign and exponent bits `top` whose fraction is the upper 52 bits of a
word. -/
def fraction (top : UInt64) (bits : UInt64) : Float := Float.ofBits (top ||| (bits >>> 12))

/-- The bits of one, which start the floats from one to two. -/
def oneBits : UInt64 := 0x3FF0000000000000

/-- The bits of two, which start the floats from two to four. -/
def twoBits : UInt64 := 0x4000000000000000

/-- A float from zero, included, to one, not included, in steps of `2^-52`. -/
def unit : Draw Float := return fraction oneBits (← word64) - 1

/-- A float between zero and one, neither included. -/
def openUnit : Draw Float := return fraction oneBits (← word64) - (1 - 1 / 9007199254740992)

/-- A float from zero, included, to one, not included, in steps of `2^-53`. -/
def unit53 : Draw Float := return ((← word64) >>> 11).toFloat / 9007199254740992

/-- The greatest float that `unit` draws. -/
def lastUnit : Float := 1 - 1 / 4503599627370496

/-- A float from `low`, included, to `high`, not included. -/
def range (low high : Float) : Draw Float :=
  repeatUntil (fun x => x < high) (return (← unit) * (high - low) + low) patience

/-- A scale lowered until the last unit stays at or below `high`. -/
def fitScale (low high : Float) : Nat → Float → Float
  | 0, scale => scale
  | n + 1, scale =>
    if high < scale * lastUnit + low then fitScale low high n (Float.ofBits (scale.toBits - 1))
    else scale

/-- A float from `low` to `high`, both included. -/
def rangeInclusive (low high : Float) : Draw Float := do
  return (← unit) * fitScale low high patience ((high - low) / lastUnit) + low

/-- A natural number below `n`, from draws of `bits` bits. A draw is the high half of its product
with `n`; low halves beyond the last whole run of `n` are drawn again. -/
def below (bits : Nat) (draw : Draw Nat) (n : Nat) : Draw Nat := do
  let zone := n <<< (bits - (n.log2 + 1)) - 1
  let product ← repeatUntil (fun m => m % 2 ^ bits ≤ zone) (return (← draw) * n) patience
  return product / 2 ^ bits

/-- A natural number from `low`, included, to `high`, not included, from 32-bit words. -/
def narrowRange (low high : Nat) : Draw Nat := do
  return low + (← below 32 (return (← word).toNat) (high - low))

/-- A natural number from `low`, included, to `high`, not included, from 64-bit words. -/
def wideRange (low high : Nat) : Draw Nat := do
  return low + (← below 64 (return (← word64).toNat) (high - low))

end Draw

end Fleet
