import Fleet.Random.Draw
import Fleet.Random.Ziggurat

/-!
# Normally distributed values

Drawn by the ziggurat method: a layer and a place in it are drawn, and a place that lies under the
curve for sure is taken at once. Otherwise the place is taken with the probability that it lies
under the curve, or for the base layer a place in the tail.
-/

namespace Fleet.Draw

open Ziggurat

/-- A place in the tail, with the sign of `u`. -/
def tail (u : Float) : Draw Float := do
  let pair : Draw (Float × Float) := do
    let x := Float.log (← openUnit) / tailStart
    return (x, Float.log (← openUnit))
  let (x, _) ← repeatUntil (fun (x, y) => !(-2 * y < x * x)) pair patience
  return if u < 0 then x - tailStart else tailStart - x

/-- One try at a value; none if the place drawn does not lie under the curve. -/
def tryNormal : Draw (Option Float) := do
  let bits ← word64
  let layer := bits.toNat % layers
  let u := fraction twoBits bits - 3
  let x := u * edge layer
  if x.abs < edge (layer + 1) then return some x
  if layer = 0 then return some (← tail u)
  let level := height (layer + 1) + (height layer - height (layer + 1)) * (← unit53)
  return if level < Float.exp (-x * x / 2) then some x else none

/-- A value of the standard normal distribution. -/
def standardNormal : Draw Float := do
  return (← repeatUntil Option.isSome tryNormal patience).getD 0

/-- **A normally distributed value** with a given mean and standard deviation. -/
def normal (mean deviation : Float) : Draw Float := return mean + deviation * (← standardNormal)

end Fleet.Draw
