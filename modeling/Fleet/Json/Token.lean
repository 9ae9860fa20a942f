import Fleet.Bytes
import Fleet.Json.Writer

/-!
# Tokens of a JSON text

A text is cut into brackets, separators, words, numbers and string literals. Reading a token off
the front of a text leaves a shorter text; `next?_length` says so, and it is why reading ends.
-/

namespace Fleet.Json

/-- **A token.** -/
inductive Token where
  | openArray
  | closeArray
  | openObject
  | closeObject
  | comma
  | colon
  | null
  | bool (value : Bool)
  | number (numeral : Numeral)
  | text (text : Option String)

/-- Space, tab, line feed and carriage return may stand between tokens. -/
def isBlank (b : UInt8) : Bool := b = 32 || b = 9 || b = 10 || b = 13

/-- The digit that a byte stands for. -/
def digit? (b : UInt8) : Option (Fin 10) :=
  if 48 ≤ b ∧ b ≤ 57 then some (Fin.ofNat 10 (b.toNat - 48)) else none

/-- The digits a text starts with, and what follows them. -/
def takeDigits : Bytes → List (Fin 10) × Bytes
  | [] => ([], [])
  | b :: bs =>
    match digit? b with
    | some d => let p := takeDigits bs; (d :: p.1, p.2)
    | none => ([], b :: bs)

/-- The whole part of a number: a zero, or digits that do not start with zero. -/
def whole? : Bytes → Option (Nat × Bytes)
  | [] => none
  | b :: bs =>
    match digit? b with
    | none => none
    | some d =>
      if d = 0 then some (0, bs)
      else let p := takeDigits bs; some (Decimal.ofDigits (d :: p.1), p.2)

/-- The digits after a point, of which there must be one; no digits if there is no point. -/
def fraction? : Bytes → Option (List (Fin 10) × Bytes)
  | [] => some ([], [])
  | b :: bs =>
    if b = ascii '.' then
      let p := takeDigits bs
      if p.1.isEmpty then none else some p
    else some ([], b :: bs)

/-- A sign if there is one: whether it is a minus, and what follows it. -/
def takeSign : Bytes → Bool × Bytes
  | [] => (false, [])
  | b :: bs =>
    if b = ascii '-' then (true, bs) else if b = ascii '+' then (false, bs) else (false, b :: bs)

/-- The exponent after an `e`, with at least one digit; none if there is no `e`. -/
def exponent? : Bytes → Option (Option Int × Bytes)
  | [] => some (none, [])
  | b :: bs =>
    if b = ascii 'e' ∨ b = ascii 'E' then
      let (negative, bs) := takeSign bs
      let (ds, rest) := takeDigits bs
      if ds.isEmpty then none
      else
        some (some (if negative then -(Decimal.ofDigits ds : Int) else Decimal.ofDigits ds), rest)
    else some (none, b :: bs)

/-- A number after its sign. -/
def numeral? (negative : Bool) (bs : Bytes) : Option (Numeral × Bytes) :=
  match whole? bs with
  | none => none
  | some (whole, bs) =>
    match fraction? bs with
    | none => none
    | some (fraction, bs) =>
      match exponent? bs with
      | none => none
      | some (exponent, rest) => some ({ negative, whole, fraction, exponent }, rest)

/-- A part of a string literal: a byte of its text, or the UTF-16 unit that an escape names. -/
inductive Piece where
  | byte (b : UInt8)
  | unit (u : Nat)
deriving DecidableEq

/-- The value of a hexadecimal digit in either case. -/
def hexDigit? (b : UInt8) : Option Nat :=
  if 48 ≤ b ∧ b ≤ 57 then some (b.toNat - 48)
  else if 97 ≤ b ∧ b ≤ 102 then some (b.toNat - 87)
  else if 65 ≤ b ∧ b ≤ 70 then some (b.toNat - 55)
  else none

/-- The number that four hexadecimal digits denote. -/
def hexUnit? (a b c d : UInt8) : Option Nat := do
  return ((← hexDigit? a) * 16 + (← hexDigit? b)) * 256 + (← hexDigit? c) * 16 + (← hexDigit? d)

/-- The byte that a letter stands for after a backslash. -/
def unescape? (letter : UInt8) : Option UInt8 :=
  if letter = ascii '"' then some (ascii '"')
  else if letter = ascii '\\' then some (ascii '\\')
  else if letter = ascii '/' then some (ascii '/')
  else if letter = ascii 'b' then some 8
  else if letter = ascii 't' then some 9
  else if letter = ascii 'n' then some 10
  else if letter = ascii 'f' then some 12
  else if letter = ascii 'r' then some 13
  else none

/-- A string literal after its opening quote, up to its closing quote. A control character must be
escaped. -/
def pieces? : Bytes → Option (List Piece × Bytes)
  | [] => none
  | b :: bs =>
    if b = ascii '"' then some ([], bs)
    else if b = ascii '\\' then
      match bs with
      | [] => none
      | letter :: bs =>
        if letter = ascii 'u' then
          match bs with
          | h₁ :: h₂ :: h₃ :: h₄ :: bs =>
            match hexUnit? h₁ h₂ h₃ h₄, pieces? bs with
            | some u, some (ps, rest) => some (.unit u :: ps, rest)
            | _, _ => none
          | _ => none
        else
          match unescape? letter, pieces? bs with
          | some c, some (ps, rest) => some (.byte c :: ps, rest)
          | _, _ => none
    else if b < 32 then none
    else
      match pieces? bs with
      | some (ps, rest) => some (.byte b :: ps, rest)
      | none => none

/-- The UTF-8 bytes of a code point. -/
def utf8 (codePoint : Nat) : Bytes := Bytes.ofText (String.singleton (Char.ofNat codePoint))

/-- Whether a UTF-16 unit is the first of a pair. -/
def isHighSurrogate (u : Nat) : Bool := 0xD800 ≤ u && u ≤ 0xDBFF

/-- Whether a UTF-16 unit is the second of a pair. -/
def isLowSurrogate (u : Nat) : Bool := 0xDC00 ≤ u && u ≤ 0xDFFF

/-- The bytes that pieces spell. A surrogate must stand in a pair of two escapes. -/
def spelled? : List Piece → Option Bytes
  | [] => some []
  | .byte b :: ps => (spelled? ps).map (b :: ·)
  | .unit u :: ps =>
    if isHighSurrogate u then
      match ps with
      | .unit v :: ps =>
        if isLowSurrogate v then
          (spelled? ps).map (utf8 (0x10000 + (u - 0xD800) * 0x400 + (v - 0xDC00)) ++ ·)
        else none
      | _ => none
    else if isLowSurrogate u then none
    else (spelled? ps).map (utf8 u ++ ·)

/-- A token if the text goes on with the given letters. -/
def word? (letters : Bytes) (t : Token) (bs : Bytes) : Option (Token × Bytes) :=
  if letters.isPrefixOf bs then some (t, bs.drop letters.length) else none

/-- The bracket or separator that a byte is. -/
def punctuation? (b : UInt8) : Option Token :=
  if b = ascii '[' then some .openArray
  else if b = ascii ']' then some .closeArray
  else if b = ascii '\x7b' then some .openObject
  else if b = ascii '\x7d' then some .closeObject
  else if b = ascii ',' then some .comma
  else if b = ascii ':' then some .colon
  else none

/-- **The token that starts with the byte `b`,** read off the text `b :: bs`, and what follows
it. -/
def next? (b : UInt8) (bs : Bytes) : Option (Token × Bytes) :=
  match punctuation? b with
  | some t => some (t, bs)
  | none =>
    if b = ascii 'n' then word? (Bytes.ofText "ull") .null bs
    else if b = ascii 't' then word? (Bytes.ofText "rue") (.bool true) bs
    else if b = ascii 'f' then word? (Bytes.ofText "alse") (.bool false) bs
    else if b = ascii '"' then
      (pieces? bs).map fun p => (.text ((spelled? p.1).bind Bytes.text?), p.2)
    else if b = ascii '-' then (numeral? true bs).map fun p => (.number p.1, p.2)
    else (numeral? false (b :: bs)).map fun p => (.number p.1, p.2)

/-! ## Reading a token shortens the text -/

theorem takeDigits_length (bs : Bytes) : (takeDigits bs).2.length ≤ bs.length := by
  induction bs with
  | nil => simp [takeDigits]
  | cons b bs ih =>
    rw [takeDigits]
    split
    · exact Nat.le_succ_of_le ih
    · exact Nat.le_refl _

theorem whole?_length {bs rest : Bytes} {n : Nat} (h : whole? bs = some (n, rest)) :
    rest.length < bs.length := by
  cases bs with
  | nil => simp [whole?] at h
  | cons b bs =>
    have := takeDigits_length bs
    rw [whole?] at h
    split at h
    · simp at h
    · split at h <;> obtain ⟨-, rfl⟩ := Prod.mk.inj (Option.some.inj h) <;>
        simp only [List.length_cons] <;> omega

theorem fraction?_length {bs rest : Bytes} {ds : List (Fin 10)}
    (h : fraction? bs = some (ds, rest)) :
    rest.length ≤ bs.length := by
  cases bs with
  | nil => simp_all [fraction?]
  | cons b bs =>
    have := takeDigits_length bs
    rw [fraction?] at h
    split at h
    · simp only at h
      split at h
      · simp at h
      · have h := Option.some.inj h
        rw [h] at this
        exact Nat.le_succ_of_le this
    · obtain ⟨-, rfl⟩ := Prod.mk.inj (Option.some.inj h)
      exact Nat.le_refl _

theorem takeSign_length (bs : Bytes) : (takeSign bs).2.length ≤ bs.length := by
  cases bs with
  | nil => exact Nat.le_refl _
  | cons b bs =>
    rw [takeSign]
    split
    · exact Nat.le_succ _
    · split
      · exact Nat.le_succ _
      · exact Nat.le_refl _

theorem exponent?_length {bs rest : Bytes} {e : Option Int} (h : exponent? bs = some (e, rest)) :
    rest.length ≤ bs.length := by
  cases bs with
  | nil => simp_all [exponent?]
  | cons b bs =>
    rw [exponent?] at h
    split at h
    · have h₁ := takeSign_length bs
      have h₂ := takeDigits_length (takeSign bs).2
      simp only at h
      split at h
      · simp at h
      · obtain ⟨-, rfl⟩ := Prod.mk.inj (Option.some.inj h)
        simp only [List.length_cons]
        omega
    · obtain ⟨-, rfl⟩ := Prod.mk.inj (Option.some.inj h)
      exact Nat.le_refl _

theorem numeral?_length {negative : Bool} {bs rest : Bytes} {n : Numeral}
    (h : numeral? negative bs = some (n, rest)) : rest.length < bs.length := by
  rw [numeral?] at h
  split at h
  · simp at h
  · rename_i hw
    split at h
    · simp at h
    · rename_i hf
      split at h
      · simp at h
      · rename_i he
        obtain ⟨-, rfl⟩ := Prod.mk.inj (Option.some.inj h)
        have := whole?_length hw
        have := fraction?_length hf
        have := exponent?_length he
        omega

theorem pieces?_length {bs rest : Bytes} {ps : List Piece} (h : pieces? bs = some (ps, rest)) :
    rest.length ≤ bs.length := by
  fun_induction pieces? bs generalizing ps rest with
  | case2 => simp_all
  | case4 h₁ h₂ h₃ h₄ bs u qs r hp hu hq ih =>
    obtain ⟨-, rfl⟩ := Prod.mk.inj (Option.some.inj h)
    have := ih hp
    simp only [List.length_cons]
    omega
  | case7 letter bs hl c qs r hp hc hq ih =>
    obtain ⟨-, rfl⟩ := Prod.mk.inj (Option.some.inj h)
    have := ih hp
    simp only [List.length_cons]
    omega
  | case10 b bs hq hb hc qs r hp ih =>
    obtain ⟨-, rfl⟩ := Prod.mk.inj (Option.some.inj h)
    have := ih hp
    simp only [List.length_cons]
    omega
  | _ => simp at h

theorem word?_length {letters bs rest : Bytes} {t u : Token}
    (h : word? letters t bs = some (u, rest)) :
    rest.length ≤ bs.length := by
  rw [word?] at h
  split at h
  · obtain ⟨-, rfl⟩ := Prod.mk.inj (Option.some.inj h)
    simp
  · simp at h

/-- **What follows a token is no longer than what followed its first byte.** -/
theorem next?_length {b : UInt8} {bs rest : Bytes} {t : Token} (h : next? b bs = some (t, rest)) :
    rest.length ≤ bs.length := by
  rw [next?] at h
  split at h
  · obtain ⟨-, rfl⟩ := Prod.mk.inj (Option.some.inj h)
    exact Nat.le_refl _
  · split at h
    · exact word?_length h
    · split at h
      · exact word?_length h
      · split at h
        · exact word?_length h
        · split at h
          · obtain ⟨⟨ps, r⟩, hp, hr⟩ := Option.map_eq_some_iff.mp h
            obtain ⟨-, rfl⟩ := Prod.mk.inj hr
            exact pieces?_length hp
          · split at h
            · obtain ⟨⟨n, r⟩, hp, hr⟩ := Option.map_eq_some_iff.mp h
              obtain ⟨-, rfl⟩ := Prod.mk.inj hr
              exact Nat.le_of_lt (numeral?_length hp)
            · obtain ⟨⟨n, r⟩, hp, hr⟩ := Option.map_eq_some_iff.mp h
              obtain ⟨-, rfl⟩ := Prod.mk.inj hr
              exact Nat.le_of_lt_succ (numeral?_length hp)

end Fleet.Json
