import Fleet.Json.Token

/-!
# Reading JSON

A reader takes one token after the other and keeps the containers that are still open. It stands
where a value, a key or a separator is due, and a token that is not due ends the reading. A bound
on the depth of nesting can be given.
-/

namespace Fleet.Json

/-- An open container that waits for a value: the items or fields so far, newest first, and for an
object the key of the value. -/
inductive Frame where
  | array (items : List Json)
  | object (fields : List (Option String × Json)) (key : Option String)

/-- **Where a reader stands.** The frames are the open containers, innermost first. -/
inductive Reader where
  /-- A value is due. -/
  | value (frames : List Frame)
  /-- An array was opened: its first item or its end is due. -/
  | firstItem (frames : List Frame)
  /-- An object was opened: its first key or its end is due. -/
  | firstKey (frames : List Frame)
  /-- A key is due. -/
  | key (fields : List (Option String × Json)) (frames : List Frame)
  /-- The colon after a key is due. -/
  | colon (fields : List (Option String × Json)) (key : Option String) (frames : List Frame)
  /-- A comma or the end of the array is due. -/
  | afterItem (items : List Json) (frames : List Frame)
  /-- A comma or the end of the object is due. -/
  | afterField (fields : List (Option String × Json)) (frames : List Frame)
  /-- The value is complete. -/
  | done (value : Json)

namespace Reader

/-- The reader after a complete value. -/
def put (v : Json) : List Frame → Reader
  | [] => .done v
  | .array items :: frames => .afterItem (v :: items) frames
  | .object fields name :: frames => .afterField ((name, v) :: fields) frames

/-- Whether one more container may be opened. -/
def mayOpen (maxDepth : Option Nat) (frames : List Frame) : Bool :=
  match maxDepth with
  | none => true
  | some depth => frames.length < depth

/-- A token where a value is due. -/
def startValue (maxDepth : Option Nat) (frames : List Frame) : Token → Option Reader
  | .null => some (put .null frames)
  | .bool b => some (put (.bool b) frames)
  | .number n => some (put (.number n) frames)
  | .text s => some (put (.text s) frames)
  | .openArray => if mayOpen maxDepth frames then some (.firstItem frames) else none
  | .openObject => if mayOpen maxDepth frames then some (.firstKey frames) else none
  | _ => none

/-- **One token;** none if it is not due. -/
def step (maxDepth : Option Nat) : Reader → Token → Option Reader
  | .value frames, t => startValue maxDepth frames t
  | .firstItem frames, .closeArray => some (put (.array []) frames)
  | .firstItem frames, t => startValue maxDepth (.array [] :: frames) t
  | .firstKey frames, .closeObject => some (put (.object []) frames)
  | .firstKey frames, .text k => some (.colon [] k frames)
  | .key fields frames, .text k => some (.colon fields k frames)
  | .colon fields k frames, .colon => some (.value (.object fields k :: frames))
  | .afterItem items frames, .comma => some (.value (.array items :: frames))
  | .afterItem items frames, .closeArray => some (put (.array items.reverse) frames)
  | .afterField fields frames, .comma => some (.key fields frames)
  | .afterField fields frames, .closeObject => some (put (.object fields.reverse) frames)
  | _, _ => none

/-- Reads a text to its end. -/
def run (maxDepth : Option Nat) (r : Reader) (bs : Bytes) : Option Json :=
  match _hb : bs.dropWhile isBlank with
  | [] =>
    match r with
    | .done v => some v
    | _ => none
  | b :: tail =>
    match _ht : next? b tail with
    | none => none
    | some (t, rest) =>
      match r.step maxDepth t with
      | none => none
      | some r => run maxDepth r rest
termination_by bs.length
decreasing_by
  have h₁ := next?_length _ht
  have h₂ : (bs.dropWhile isBlank).length ≤ bs.length := (List.dropWhile_sublist _).length_le
  rw [_hb, List.length_cons] at h₂
  omega

end Reader

/-- **The value that a text holds,** with containers nested at most `maxDepth` deep if that is
given. -/
def read? (bs : Bytes) (maxDepth : Option Nat := none) : Option Json :=
  Reader.run maxDepth (.value []) bs

end Fleet.Json
