import Fleet.Json.Reader

/-!
# Values of Lean types as JSON

`Wire` says how the values of a type are written as JSON and read back. A structure is written as
an object; it is read from an object, whose other fields are ignored, or from an array of its
fields in order. The shapes of the numbers are here, those of the domain in the modules that
follow.
-/

namespace Fleet

/-- **How a type's values are written and read.** -/
class Wire (α : Type) where
  toJson : α → Json
  ofJson? : Json → Option α

namespace Wire

/-- A value as bytes. -/
def write {α : Type} [Wire α] (a : α) : Bytes := (toJson a).bytes

/-- The value that bytes hold. -/
def read? {α : Type} [Wire α] (bs : Bytes) : Option α := (Json.read? bs).bind ofJson?

instance : Wire Bool where
  toJson := .bool
  ofJson?
    | .bool b => some b
    | _ => none

instance : Wire String where
  toJson := .string
  ofJson?
    | .text s => s
    | _ => none

instance : Wire Float where
  toJson := .float
  ofJson?
    | .number n => n.float?
    | _ => none

/-- The integer that a value is, if it lies in a range. -/
def intIn? (low high : Int) : Json → Option Int
  | .number n => n.int?.filter fun i => low ≤ i && i ≤ high
  | _ => none

instance : Wire Int64 where
  toJson i := .int i.toInt
  ofJson? j := (intIn? Int64.minValue.toInt Int64.maxValue.toInt j).map Int64.ofInt

instance : Wire UInt64 where
  toJson n := .int n.toNat
  ofJson? j := (intIn? 0 (2 ^ 64 - 1) j).map fun i => UInt64.ofNat i.toNat

/-- Counts are read as long as they fit 64 bits. -/
instance : Wire Nat where
  toJson n := .int n
  ofJson? j := (intIn? 0 (2 ^ 64 - 1) j).map Int.toNat

instance : Wire UInt8 where
  toJson b := .int b.toNat
  ofJson? j := (intIn? 0 255 j).map fun i => UInt8.ofNat i.toNat

instance {α : Type} [Wire α] : Wire (List α) where
  toJson xs := .array (xs.map toJson)
  ofJson?
    | .array items => items.mapM ofJson?
    | _ => none

/-- The value of the field with a given name, where the name may stand once only. -/
def field? (fields : List (Option String × Json)) (name : String) : Option (Option Json) :=
  match fields.filter fun f => f.1 = some name with
  | [] => some none
  | [f] => some (some f.2)
  | _ => none

/-- The values of the named fields of a structure, each absent if it does not stand there. A key
that spells no text and a name that stands twice are refused. -/
def fields? (names : List String) : Json → Option (List (Option Json))
  | .object fields =>
    if fields.all fun f => f.1.isSome then names.mapM (field? fields) else none
  | .array items =>
    if items.length ≤ names.length then
      some (items.map some ++ List.replicate (names.length - items.length) none)
    else none
  | _ => none

/-- A field that must be there. -/
def required {α : Type} [Wire α] (j : Option Json) : Option α := j.bind ofJson?

/-- A field with a default. -/
def orDefault {α : Type} [Wire α] (default : α) : Option Json → Option α
  | none => some default
  | some j => ofJson? j

/-- A field that may be absent or null. -/
def nullable {α : Type} [Wire α] : Option Json → Option (Option α)
  | none => some none
  | some .null => some none
  | some j => (ofJson? j).map some

/-- One of several names, written as a string. It is also read from an object whose only field has
that name and the value null. -/
def name? : Json → Option String
  | .text s => s
  | .object [(key, .null)] => key
  | _ => none

end Wire

end Fleet
