import Fleet.Bytes
import Fleet.Json.Numeral

/-!
# Writing JSON

Values are written without blanks. In strings the quote, the backslash and the control characters
are escaped, all else stands as it is. A text is built from its end: every part is put in front of
what follows it.
-/

namespace Fleet.Json

/-- The byte of an ASCII character. -/
def ascii (c : Char) : UInt8 := c.toUInt8

/-- A digit as a byte. -/
def digitByte (d : Fin 10) : UInt8 := UInt8.ofNat (48 + d.val)

/-- Digits in front of `rest`. -/
def digitsOnto (ds : List (Fin 10)) (rest : Bytes) : Bytes :=
  ds.foldr (fun d rest => digitByte d :: rest) rest

/-- A natural number in decimal in front of `rest`. -/
def natOnto (n : Nat) (rest : Bytes) : Bytes := digitsOnto (Decimal.digits n) rest

/-- An exponent with its sign in front of `rest`. -/
def exponentOnto (e : Int) (rest : Bytes) : Bytes :=
  ascii 'e' :: (if e < 0 then ascii '-' else ascii '+') :: natOnto e.natAbs rest

/-- A number in front of `rest`. -/
def numeralOnto (n : Numeral) (rest : Bytes) : Bytes :=
  let exponent :=
    match n.exponent with
    | none => rest
    | some e => exponentOnto e rest
  let fraction :=
    if n.fraction.isEmpty then exponent else ascii '.' :: digitsOnto n.fraction exponent
  let whole := natOnto n.whole fraction
  if n.negative then ascii '-' :: whole else whole

/-- A hexadecimal digit in lower case. -/
def hexByte (n : Nat) : UInt8 :=
  if n < 10 then UInt8.ofNat (48 + n) else UInt8.ofNat (87 + n)

/-- The letter that stands for a byte after a backslash. -/
def escapeLetter? (b : UInt8) : Option UInt8 :=
  if b = ascii '"' then some (ascii '"')
  else if b = ascii '\\' then some (ascii '\\')
  else if b = 8 then some (ascii 'b')
  else if b = 9 then some (ascii 't')
  else if b = 10 then some (ascii 'n')
  else if b = 12 then some (ascii 'f')
  else if b = 13 then some (ascii 'r')
  else none

/-- One byte of a text inside a string literal, in front of `rest`. -/
def escapeOnto (b : UInt8) (rest : Bytes) : Bytes :=
  match escapeLetter? b with
  | some letter => ascii '\\' :: letter :: rest
  | none =>
    if b < 32 then
      ascii '\\' :: ascii 'u' :: ascii '0' :: ascii '0' ::
        hexByte (b.toNat / 16) :: hexByte (b.toNat % 16) :: rest
    else b :: rest

/-- A string literal in front of `rest`. A literal without a text is written as a lone surrogate
escape. -/
def textOnto : Option String → Bytes → Bytes
  | some s, rest => ascii '"' :: (Bytes.ofText s).foldr escapeOnto (ascii '"' :: rest)
  | none, rest => Bytes.ofText "\"\\ud800\"" ++ rest

mutual

/-- A value in front of `rest`. -/
def onto : Json → Bytes → Bytes
  | .null, rest => Bytes.ofText "null" ++ rest
  | .bool true, rest => Bytes.ofText "true" ++ rest
  | .bool false, rest => Bytes.ofText "false" ++ rest
  | .number n, rest => numeralOnto n rest
  | .text s, rest => textOnto s rest
  | .array items, rest => ascii '[' :: itemsOnto items (ascii ']' :: rest)
  | .object fields, rest => ascii '\x7b' :: fieldsOnto fields (ascii '\x7d' :: rest)

/-- Items with commas between them, in front of `rest`. -/
def itemsOnto : List Json → Bytes → Bytes
  | [], rest => rest
  | [item], rest => onto item rest
  | item :: items, rest => onto item (ascii ',' :: itemsOnto items rest)

/-- Fields with commas between them, in front of `rest`. -/
def fieldsOnto : List (Option String × Json) → Bytes → Bytes
  | [], rest => rest
  | [(key, value)], rest => textOnto key (ascii ':' :: onto value rest)
  | (key, value) :: fields, rest =>
    textOnto key (ascii ':' :: onto value (ascii ',' :: fieldsOnto fields rest))

end

/-- **A value as bytes.** -/
def bytes (j : Json) : Bytes := j.onto []

/-- A string literal. -/
def textBytes (s : Option String) : Bytes := textOnto s []

end Fleet.Json
