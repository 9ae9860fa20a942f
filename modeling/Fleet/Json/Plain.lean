import Fleet.Json.Numeral

/-!
# Values that can be held in memory

A text may hold numbers beyond the floats and string literals that spell no text. They do not
matter in a part of a value that is skipped, but a value that is held as a whole must be free of
them.
-/

namespace Fleet.Json

mutual

/-- Whether every number in a value is a float and every string literal spells a text. -/
def isPlain : Json → Bool
  | .null => true
  | .bool _ => true
  | .number n => n.float?.isSome
  | .text s => s.isSome
  | .array items => itemsArePlain items
  | .object fields => fieldsArePlain fields

/-- The same for all items of an array. -/
def itemsArePlain : List Json → Bool
  | [] => true
  | v :: rest => isPlain v && itemsArePlain rest

/-- The same for all fields of an object, with their keys. -/
def fieldsArePlain : List (Option String × Json) → Bool
  | [] => true
  | (key, v) :: rest => key.isSome && isPlain v && fieldsArePlain rest

end

end Fleet.Json
