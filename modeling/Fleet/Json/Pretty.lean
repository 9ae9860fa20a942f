import Fleet.Json.Writer

/-!
# JSON for people

Values written over several lines: every item and every field stands on a line of its own, two
blanks further in than the container it is in.
-/

namespace Fleet.Json

/-- A line break and the blanks of the next line. -/
def lineBreak (depth : Nat) : Bytes := 10 :: List.replicate (2 * depth) (ascii ' ')

mutual

/-- **A value over several lines,** inside that many containers. -/
def pretty (depth : Nat) : Json → Bytes
  | .array [] => Bytes.ofText "[]"
  | .object [] => Bytes.ofText "\x7b\x7d"
  | .array items => ascii '[' :: prettyItems (depth + 1) items ++ lineBreak depth ++ [ascii ']']
  | .object fields =>
    ascii '\x7b' :: prettyFields (depth + 1) fields ++ lineBreak depth ++ [ascii '\x7d']
  | v => bytes v

/-- Items on lines of their own. -/
def prettyItems (depth : Nat) : List Json → Bytes
  | [] => []
  | [item] => lineBreak depth ++ pretty depth item
  | item :: rest => lineBreak depth ++ pretty depth item ++ ascii ',' :: prettyItems depth rest

/-- Fields on lines of their own. -/
def prettyFields (depth : Nat) : List (Option String × Json) → Bytes
  | [] => []
  | [(key, value)] => lineBreak depth ++ textBytes key ++ Bytes.ofText ": " ++ pretty depth value
  | (key, value) :: rest =>
    lineBreak depth ++ textBytes key ++ Bytes.ofText ": " ++ pretty depth value
      ++ ascii ',' :: prettyFields depth rest

end

end Fleet.Json
