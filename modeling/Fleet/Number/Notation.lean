import Fleet.Number.Decimal

/-!
# Writing floats as text

Two notations for people: `plain` writes the shortest digits positionally, never with an exponent,
and `scientific` writes a fixed number of significant digits and an exponent.
-/

namespace Fleet.Notation

/-- A digit as a character. -/
def digitChar (d : Fin 10) : Char := Char.ofNat (48 + d.val)

/-- Digits as text. -/
def ofDigits (ds : List (Fin 10)) : String := String.ofList (ds.map digitChar)

/-- A natural number as text. -/
def ofNat (n : Nat) : String := ofDigits (Decimal.digits n)

/-- An integer as text. -/
def ofInt : Int → String
  | .ofNat n => ofNat n
  | .negSucc n => "-" ++ ofNat (n + 1)

/-- The digits of `d` with the point set: the part before it, which is never empty, and the part
after it, which may be. -/
def positional (d : Decimal) : List (Fin 10) × List (Fin 10) :=
  let ds := Decimal.digits d.significand
  let zeros := List.replicate d.exponent.toNat 0
  let places := (-d.exponent).toNat
  if places = 0 then (ds ++ zeros, [])
  else if places < ds.length then (ds.take (ds.length - places), ds.drop (ds.length - places))
  else ([0], List.replicate (places - ds.length) 0 ++ ds)

/-- The sign of a negative number. -/
def sign (negative : Bool) : String := if negative then "-" else ""

/-- The text of a number that is not finite, the same in both notations. -/
def infinity (negative : Bool) : String := sign negative ++ "inf"

/-- **Plain notation.** The fewest digits that read back as the same float, written positionally;
a whole number has no point. -/
def plain (x : Float) : String :=
  match Binary64.ofFloat x with
  | .nan => "NaN"
  | .infinite negative => infinity negative
  | .finite negative m q =>
    if m = 0 then sign negative ++ "0"
    else
      let (whole, fraction) := positional (Decimal.shortest .up m q)
      sign negative ++ ofDigits whole ++ if fraction.isEmpty then "" else "." ++ ofDigits fraction

/-- **Scientific notation.** One digit, a point, `places` more digits and the exponent after an
`e`. A half goes to the even neighbour. -/
def scientific (places : Nat) (x : Float) : String :=
  match Binary64.ofFloat x with
  | .nan => "NaN"
  | .infinite negative => infinity negative
  | .finite negative m q =>
    let (ds, e) :=
      if m = 0 then (List.replicate (places + 1) 0, 0)
      else
        let d := Decimal.rounded .toEven (places + 1) m q
        (Decimal.digits d.significand, d.exponent + places)
    sign negative ++ ofDigits (ds.take 1) ++ "." ++ ofDigits (ds.drop 1) ++ "e" ++ ofInt e

end Fleet.Notation
