import Fleet.Number.Decimal

/-!
# Reading numbers that people type

Settings and counts arrive as text. `Reading.float?` reads a decimal as the nearest float and
`Reading.natural?` reads a count.
-/

namespace Fleet.Reading

/-- The digit a character stands for. -/
def digit? (c : Char) : Option (Fin 10) :=
  if c.isDigit then some (Fin.ofNat 10 (c.toNat - 48)) else none

/-- The digits a text starts with, and what follows them. -/
def takeDigits : List Char → List (Fin 10) × List Char
  | [] => ([], [])
  | c :: cs =>
    match digit? c with
    | some d => let (ds, rest) := takeDigits cs; (d :: ds, rest)
    | none => ([], c :: cs)

/-- A sign, if the text starts with one: whether it is a minus, and what follows it. -/
def takeSign : List Char → Bool × List Char
  | '-' :: cs => (true, cs)
  | '+' :: cs => (false, cs)
  | cs => (false, cs)

/-- A natural number below `bound`: digits alone, or a plus and digits. -/
def natural? (bound : Nat) (text : String) : Option Nat :=
  let digitsOnly := match text.toList with
    | '+' :: cs => cs
    | cs => cs
  match takeDigits digitsOnly with
  | ([], _) => none
  | (ds, []) => if Decimal.ofDigits ds < bound then some (Decimal.ofDigits ds) else none
  | (_, _) => none

/-- An exponent: `e` or `E`, a sign if any, and at least one digit up to the end of the text. -/
def exponent? : List Char → Option Int
  | [] => some 0
  | c :: cs =>
    if c = 'e' ∨ c = 'E' then
      let (negative, cs) := takeSign cs
      match takeDigits cs with
      | ([], _) => none
      | (ds, []) => some (if negative then -(Decimal.ofDigits ds : Int) else Decimal.ofDigits ds)
      | (_, _) => none
    else none

/-- The float nearest to `n · 10^e`. -/
def nearest (n : Nat) (e : Int) : Float :=
  Float.ofScientific n (e < 0) e.natAbs

/-- The words for numbers without digits, in any case of letters. -/
def special? (text : List Char) : Option Float :=
  match String.ofList (text.map Char.toLower) with
  | "inf" => some (1.0 / 0.0)
  | "infinity" => some (1.0 / 0.0)
  | "nan" => some (0.0 / 0.0)
  | _ => none

/-- An unsigned decimal: digits with at most one point, at least one digit, and an exponent if
any. -/
def decimal? (text : List Char) : Option Float :=
  let (whole, rest) := takeDigits text
  let (fraction, rest) := match rest with
    | '.' :: cs => takeDigits cs
    | cs => ([], cs)
  if whole.isEmpty ∧ fraction.isEmpty then none
  else (exponent? rest).map fun e =>
    nearest (Decimal.ofDigits (whole ++ fraction)) (e - fraction.length)

/-- **The float nearest to a decimal text.** An optional sign, then a decimal or one of the words
`inf`, `infinity` and `nan`. -/
def float? (text : String) : Option Float :=
  let (negative, unsigned) := takeSign text.toList
  let magnitude := (special? unsigned).or (decimal? unsigned)
  magnitude.map fun x => if negative then -x else x

end Fleet.Reading
