import Fleet.Number.Decimal

/-!
# JSON values

A value as it stands in a text: numbers keep their digits, objects keep their fields in order with
repetitions, and a string literal that spells no text is told apart from every text.
-/

namespace Fleet

/-- **A number as written:** `whole.fraction` times ten to the `exponent`. A number without a
point has no fraction digits. -/
structure Numeral where
  negative : Bool := false
  whole : Nat
  fraction : List (Fin 10) := []
  exponent : Option Int := none
deriving DecidableEq, Repr

/-- **A JSON value.** The text of a string or of a key is absent if the literal is well formed but
its escapes do not pair up, or its bytes are not UTF-8. -/
inductive Json where
  | null
  | bool (value : Bool)
  | number (numeral : Numeral)
  | text (text : Option String)
  | array (items : List Json)
  | object (fields : List (Option String × Json))
deriving Inhabited

namespace Json

/-- A string value. -/
def string (s : String) : Json := .text (some s)

/-- An object with the given fields, of which the absent ones are left out. -/
def record (fields : List (String × Option Json)) : Json :=
  .object (fields.filterMap fun f => f.2.map (some f.1, ·))

end Json

end Fleet
