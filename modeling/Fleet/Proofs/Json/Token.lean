import Fleet.Json.Token

/-!
# Written tokens are read back

What the writer puts in front of a text is one token, and reading it leaves that text.  `Reads`
says so of a text, and there is one lemma for each kind of token.  A number is the only token that
could go on: `EndsNumber` is what the text behind it must satisfy.
-/

namespace Fleet
namespace Json

/-- **A text begins with a token,** and what follows it. -/
def Reads (bs : Bytes) (t : Token) (rest : Bytes) : Prop :=
  ∃ b tail, bs = b :: tail ∧ isBlank b = false ∧ next? b tail = some (t, rest)

/-- Whether a byte goes on a number. -/
def continuesNumber (b : UInt8) : Bool :=
  (digit? b).isSome || b = ascii '.' || b = ascii 'e' || b = ascii 'E'

theorem continuesNumber_eq_false {b : UInt8} : continuesNumber b = false ↔
    digit? b = none ∧ b ≠ ascii '.' ∧ b ≠ ascii 'e' ∧ b ≠ ascii 'E' := by
  simp only [continuesNumber, Bool.or_eq_false_iff, decide_eq_false_iff_not,
    Option.isSome_eq_false_iff, Option.isNone_iff_eq_none, and_assoc, ne_eq]

/-- A number that stands before the text ends there. -/
def EndsNumber (bs : Bytes) : Prop := ∀ b ∈ bs.head?, continuesNumber b = false

theorem endsNumber_nil : EndsNumber [] := fun _ h => by cases h

/-! ## Brackets, separators and words -/

theorem mem_of_punctuation? {b : UInt8} {t : Token} (h : punctuation? b = some t) :
    b ∈ [ascii '[', ascii ']', ascii '\x7b', ascii '\x7d', ascii ',', ascii ':'] := by
  simp only [List.mem_cons, List.not_mem_nil, or_false]
  apply Decidable.byContradiction
  intro hne
  simp only [not_or] at hne
  obtain ⟨h₁, h₂, h₃, h₄, h₅, h₆⟩ := hne
  simp [punctuation?, h₁, h₂, h₃, h₄, h₅, h₆] at h

/-- A bracket or a separator ends a number. -/
theorem endsNumber_punctuation {b : UInt8} {t : Token} (h : punctuation? b = some t)
    (bs : Bytes) : EndsNumber (b :: bs) := by
  have hmem := mem_of_punctuation? h
  rintro c ⟨⟩
  simp only [List.mem_cons, List.not_mem_nil, or_false] at hmem
  rcases hmem with rfl | rfl | rfl | rfl | rfl | rfl <;> decide

theorem reads_punctuation {b : UInt8} {t : Token} (h : punctuation? b = some t) (rest : Bytes) :
    Reads (b :: rest) t rest := by
  have hblank : isBlank b = false := by
    have hmem := mem_of_punctuation? h
    simp only [List.mem_cons, List.not_mem_nil, or_false] at hmem
    rcases hmem with rfl | rfl | rfl | rfl | rfl | rfl <;> decide
  exact ⟨b, rest, rfl, hblank, by rw [next?, h]⟩

theorem word?_append (letters : Bytes) (t : Token) (rest : Bytes) :
    word? letters t (letters ++ rest) = some (t, rest) := by
  simp [word?]

theorem reads_null (rest : Bytes) : Reads (Bytes.ofText "null" ++ rest) .null rest := by
  refine ⟨ascii 'n', Bytes.ofText "ull" ++ rest, rfl, by decide, ?_⟩
  exact word?_append (Bytes.ofText "ull") .null rest

theorem reads_true (rest : Bytes) : Reads (Bytes.ofText "true" ++ rest) (.bool true) rest := by
  refine ⟨ascii 't', Bytes.ofText "rue" ++ rest, rfl, by decide, ?_⟩
  exact word?_append (Bytes.ofText "rue") (.bool true) rest

theorem reads_false (rest : Bytes) : Reads (Bytes.ofText "false" ++ rest) (.bool false) rest := by
  refine ⟨ascii 'f', Bytes.ofText "alse" ++ rest, rfl, by decide, ?_⟩
  exact word?_append (Bytes.ofText "alse") (.bool false) rest

/-! ## Numbers -/

theorem digit?_digitByte : ∀ d : Fin 10, digit? (digitByte d) = some d := by decide

theorem takeDigits_digitsOnto (ds : List (Fin 10)) {rest : Bytes}
    (h : ∀ b ∈ rest.head?, digit? b = none) : takeDigits (digitsOnto ds rest) = (ds, rest) := by
  induction ds with
  | nil =>
    cases rest with
    | nil => rfl
    | cons b rest =>
      show takeDigits (b :: rest) = _
      rw [takeDigits, h b rfl]
  | cons d ds ih =>
    show takeDigits (digitByte d :: digitsOnto ds rest) = _
    rw [takeDigits, digit?_digitByte]
    simp only [ih]

/-- The digits of a number do not start with zero unless they are that digit. -/
theorem digits_eq_cons (n : Nat) :
    ∃ d ds, Decimal.digits n = d :: ds ∧ (d = 0 → n = 0 ∧ ds = []) := by
  -- the first digit of a positive number, whatever digits follow it, is not zero
  have hgen : ∀ (n : Nat) (ds : List (Fin 10)), 0 < n →
      ∃ e es, Decimal.digitsOnto n ds = e :: es ∧ e ≠ 0 := by
    intro n
    induction n using Nat.strongRecOn with
    | ind n ih =>
      intro ds hn
      rw [Decimal.digitsOnto]
      split
      · rename_i hlt
        refine ⟨_, _, rfl, fun h => ?_⟩
        have hval := congrArg Fin.val h
        simp only [Fin.ofNat, Nat.mod_eq_of_lt hlt] at hval
        exact absurd hval (by simp; omega)
      · exact ih (n / 10) (by omega) _ (by omega)
  rcases Nat.eq_zero_or_pos n with rfl | hn
  · refine ⟨0, [], ?_, fun _ => ⟨rfl, rfl⟩⟩
    rw [Decimal.digits, Decimal.digitsOnto]
    rfl
  · obtain ⟨d, ds, hds, hne⟩ := hgen n [] hn
    exact ⟨d, ds, hds, fun h => absurd h hne⟩

theorem whole?_natOnto (n : Nat) {rest : Bytes} (h : ∀ b ∈ rest.head?, digit? b = none) :
    whole? (natOnto n rest) = some (n, rest) := by
  obtain ⟨d, ds, hds, hzero⟩ := digits_eq_cons n
  rw [natOnto, hds]
  show whole? (digitByte d :: digitsOnto ds rest) = _
  rw [whole?, digit?_digitByte]
  by_cases hd : d = 0
  · obtain ⟨rfl, rfl⟩ := hzero hd
    simp only [if_pos hd]
    rfl
  · simp only [if_neg hd, takeDigits_digitsOnto ds h]
    rw [← hds, Decimal.ofDigits_digits]

theorem EndsNumber.not_digit {rest : Bytes} (h : EndsNumber rest) :
    ∀ b ∈ rest.head?, digit? b = none :=
  fun b hb => (continuesNumber_eq_false.mp (h b hb)).1

/-- An exponent, if there is one, in front of `rest`. -/
def exponentPart (e : Option Int) (rest : Bytes) : Bytes :=
  match e with
  | none => rest
  | some e => exponentOnto e rest

/-- The digits after the point, if there are any, in front of `rest`. -/
def fractionPart (ds : List (Fin 10)) (rest : Bytes) : Bytes :=
  if ds.isEmpty then rest else ascii '.' :: digitsOnto ds rest

/-- A number is its sign, its whole part, its fraction and its exponent. -/
theorem numeralOnto_eq (n : Numeral) (rest : Bytes) :
    numeralOnto n rest =
      (if n.negative then [ascii '-'] else []) ++
        natOnto n.whole (fractionPart n.fraction (exponentPart n.exponent rest)) := by
  unfold numeralOnto fractionPart exponentPart
  cases n.negative <;> rfl

theorem exponent?_exponentPart (e : Option Int) {rest : Bytes} (h : EndsNumber rest) :
    exponent? (exponentPart e rest) = some (e, rest) := by
  cases e with
  | none =>
    cases rest with
    | nil => rfl
    | cons b rest =>
      obtain ⟨-, -, he, hE⟩ := continuesNumber_eq_false.mp (h b rfl)
      show exponent? (b :: rest) = _
      rw [exponent?, if_neg (not_or.mpr ⟨he, hE⟩)]
  | some e =>
    have hnonempty : (Decimal.digits e.natAbs).isEmpty = false := by
      obtain ⟨d, ds, hds, -⟩ := digits_eq_cons e.natAbs
      rw [hds]
      rfl
    have hdigits := takeDigits_digitsOnto (Decimal.digits e.natAbs) h.not_digit
    show exponent? (ascii 'e' :: (if e < 0 then ascii '-' else ascii '+') ::
      digitsOnto (Decimal.digits e.natAbs) rest) = _
    rw [exponent?, if_pos (Or.inl rfl)]
    by_cases hneg : e < 0
    · have hsign : takeSign (ascii '-' :: digitsOnto (Decimal.digits e.natAbs) rest) =
          (true, digitsOnto (Decimal.digits e.natAbs) rest) := rfl
      have hvalue : -(e.natAbs : Int) = e := by omega
      simp only [if_pos hneg, hsign, hdigits, hnonempty, Decimal.ofDigits_digits]
      exact congrArg (fun n => some (some n, rest)) hvalue
    · have hsign : takeSign (ascii '+' :: digitsOnto (Decimal.digits e.natAbs) rest) =
          (false, digitsOnto (Decimal.digits e.natAbs) rest) := rfl
      have hvalue : (e.natAbs : Int) = e := by omega
      simp only [if_neg hneg, hsign, hdigits, hnonempty, Decimal.ofDigits_digits]
      exact congrArg (fun n => some (some n, rest)) hvalue

/-- What follows the digits of a whole part or of a fraction is no digit. -/
theorem exponentPart_not_digit (e : Option Int) {rest : Bytes} (h : EndsNumber rest) :
    ∀ b ∈ (exponentPart e rest).head?, digit? b = none := by
  cases e with
  | none => exact h.not_digit
  | some e =>
    rintro b ⟨⟩
    decide

theorem fraction?_fractionPart (ds : List (Fin 10)) (e : Option Int) {rest : Bytes}
    (h : EndsNumber rest) :
    fraction? (fractionPart ds (exponentPart e rest)) = some (ds, exponentPart e rest) := by
  cases ds with
  | nil =>
    show fraction? (exponentPart e rest) = _
    cases e with
    | none =>
      cases rest with
      | nil => rfl
      | cons b rest =>
        obtain ⟨-, hpoint, -⟩ := continuesNumber_eq_false.mp (h b rfl)
        show fraction? (b :: rest) = _
        rw [fraction?, if_neg hpoint]
        rfl
    | some e =>
      show fraction? (ascii 'e' :: _) = _
      rw [fraction?, if_neg (by decide)]
      rfl
  | cons d ds =>
    show fraction? (ascii '.' :: digitsOnto (d :: ds) (exponentPart e rest)) = _
    rw [fraction?, if_pos rfl, takeDigits_digitsOnto _ (exponentPart_not_digit e h)]
    rfl

theorem fractionPart_not_digit (ds : List (Fin 10)) (e : Option Int) {rest : Bytes}
    (h : EndsNumber rest) :
    ∀ b ∈ (fractionPart ds (exponentPart e rest)).head?, digit? b = none := by
  cases ds with
  | nil => exact exponentPart_not_digit e h
  | cons d ds =>
    rintro b ⟨⟩
    decide

theorem numeral?_parts (n : Numeral) {rest : Bytes} (h : EndsNumber rest) :
    numeral? n.negative (natOnto n.whole (fractionPart n.fraction (exponentPart n.exponent rest))) =
      some (n, rest) := by
  rw [numeral?, whole?_natOnto _ (fractionPart_not_digit n.fraction n.exponent h)]
  simp only [fraction?_fractionPart n.fraction n.exponent h, exponent?_exponentPart n.exponent h]

/-- The first byte of a whole part starts nothing but a number. -/
theorem next?_digitByte (d : Fin 10) (bs : Bytes) :
    next? (digitByte d) bs =
      (numeral? false (digitByte d :: bs)).map fun p => (.number p.1, p.2) := by
  have hall : ∀ d : Fin 10, (punctuation? (digitByte d)).isNone ∧ digitByte d ≠ ascii 'n' ∧
      digitByte d ≠ ascii 't' ∧ digitByte d ≠ ascii 'f' ∧ digitByte d ≠ ascii '"' ∧
      digitByte d ≠ ascii '-' := by decide
  obtain ⟨hp, hn, ht, hf, hq, hm⟩ := hall d
  rw [next?, Option.isNone_iff_eq_none.mp hp]
  simp only [if_neg hn, if_neg ht, if_neg hf, if_neg hq, if_neg hm]

theorem reads_numeral (n : Numeral) {rest : Bytes} (h : EndsNumber rest) :
    Reads (numeralOnto n rest) (.number n) rest := by
  have hparts := numeral?_parts n h
  have hblank : ∀ d : Fin 10, isBlank (digitByte d) = false := by decide
  rw [numeralOnto_eq]
  cases hneg : n.negative with
  | true =>
    rw [hneg] at hparts
    refine ⟨ascii '-', natOnto n.whole (fractionPart n.fraction (exponentPart n.exponent rest)),
      rfl, by decide, ?_⟩
    show (numeral? true _).map (fun p => (Token.number p.1, p.2)) = _
    rw [hparts]
    rfl
  | false =>
    rw [hneg] at hparts
    obtain ⟨d, ds, hds, -⟩ := digits_eq_cons n.whole
    rw [natOnto, hds] at hparts ⊢
    refine ⟨digitByte d, _, rfl, hblank d, ?_⟩
    rw [next?_digitByte]
    show (numeral? false (digitsOnto (d :: ds) _)).map (fun p => (Token.number p.1, p.2)) = _
    rw [hparts]
    rfl

/-! ## Strings -/

section Strings

variable {bs rest : Bytes} {ps : List Piece} (h : pieces? bs = some (ps, rest))

theorem pieces?_quote (rest : Bytes) : pieces? (ascii '"' :: rest) = some ([], rest) := by
  rw [pieces?.eq_def]
  simp

include h

theorem pieces?_letter {b letter : UInt8} (hu : letter ≠ ascii 'u')
    (hback : unescape? letter = some b) :
    pieces? (ascii '\\' :: letter :: bs) = some (.byte b :: ps, rest) := by
  have hne : ascii '\\' ≠ ascii '"' := by decide
  rw [pieces?.eq_def]
  simp [hne, hu, hback, h]

theorem pieces?_unit {h₁ h₂ h₃ h₄ : UInt8} {u : Nat} (hhex : hexUnit? h₁ h₂ h₃ h₄ = some u) :
    pieces? (ascii '\\' :: ascii 'u' :: h₁ :: h₂ :: h₃ :: h₄ :: bs) =
      some (.unit u :: ps, rest) := by
  have hne : ascii '\\' ≠ ascii '"' := by decide
  rw [pieces?.eq_def]
  simp [hne, hhex, h]

theorem pieces?_raw {b : UInt8} (hquote : b ≠ ascii '"') (hback : b ≠ ascii '\\')
    (hcontrol : ¬ b < 32) : pieces? (b :: bs) = some (.byte b :: ps, rest) := by
  rw [pieces?.eq_def]
  simp [hquote, hback, hcontrol, h]

end Strings

/-- A letter after a backslash stands for the byte that is written with it. -/
theorem unescape?_of_escapeLetter? {b letter : UInt8} (h : escapeLetter? b = some letter) :
    letter ≠ ascii 'u' ∧ unescape? letter = some b := by
  -- one case for each letter, and the last for none
  unfold escapeLetter? at h
  repeat' split at h
  all_goals
    rcases h with ⟨⟩
  all_goals
    rename_i hb
    subst hb
    decide

/-- A byte that needs no letter is neither a quote nor a backslash. -/
theorem ne_of_escapeLetter?_eq_none {b : UInt8} (h : escapeLetter? b = none) :
    b ≠ ascii '"' ∧ b ≠ ascii '\\' := by
  constructor
  · rintro rfl
    exact absurd h (by decide)
  · rintro rfl
    exact absurd h (by decide)

/-- The piece that a byte of a text is written as. -/
def pieceOf (b : UInt8) : Piece :=
  if escapeLetter? b = none ∧ b < 32 then .unit b.toNat else .byte b

theorem pieces?_escapeOnto (b : UInt8) {bs rest : Bytes} {ps : List Piece}
    (h : pieces? bs = some (ps, rest)) :
    pieces? (escapeOnto b bs) = some (pieceOf b :: ps, rest) := by
  unfold escapeOnto pieceOf
  cases hletter : escapeLetter? b with
  | some letter =>
    obtain ⟨hu, hback⟩ := unescape?_of_escapeLetter? hletter
    simp only [reduceCtorEq, false_and, if_false]
    exact pieces?_letter h hu hback
  | none =>
    by_cases hcontrol : b < 32
    · have hhex : ∀ n < 32,
          hexUnit? (ascii '0') (ascii '0') (hexByte (n / 16)) (hexByte (n % 16)) = some n := by
        decide
      simp only [if_pos hcontrol, true_and]
      exact pieces?_unit h (hhex b.toNat (UInt8.lt_iff_toNat_lt.mp hcontrol))
    · obtain ⟨hquote, hback⟩ := ne_of_escapeLetter?_eq_none hletter
      simp only [if_neg hcontrol, true_and]
      exact pieces?_raw h hquote hback hcontrol

theorem pieces?_foldr_escapeOnto (bs rest : Bytes) :
    pieces? (bs.foldr escapeOnto (ascii '"' :: rest)) = some (bs.map pieceOf, rest) := by
  induction bs with
  | nil => exact pieces?_quote rest
  | cons b bs ih => exact pieces?_escapeOnto b ih

/-- The pieces that a text is written as spell it. -/
theorem spelled?_map_pieceOf (bs : Bytes) : spelled? (bs.map pieceOf) = some bs := by
  induction bs with
  | nil => rfl
  | cons b bs ih =>
    rw [List.map_cons, pieceOf]
    split
    · rename_i hb
      have hutf8 : ∀ n < 32, isHighSurrogate n = false ∧ isLowSurrogate n = false ∧
          utf8 n = [UInt8.ofNat n] := by decide
      obtain ⟨hhigh, hlow, hspell⟩ := hutf8 b.toNat (UInt8.lt_iff_toNat_lt.mp hb.2)
      rw [spelled?.eq_def]
      simp only [hhigh, hlow, hspell, ih]
      simp
    · rw [spelled?, ih]
      rfl

theorem reads_text (s : Option String) (rest : Bytes) : Reads (textOnto s rest) (.text s) rest := by
  cases s with
  | some s =>
    refine ⟨ascii '"', _, rfl, by decide, ?_⟩
    show (pieces? ((Bytes.ofText s).foldr escapeOnto (ascii '"' :: rest))).map _ = _
    rw [pieces?_foldr_escapeOnto, Option.map_some, spelled?_map_pieceOf, Option.bind_some,
      Bytes.text?_ofText]
  | none =>
    refine ⟨ascii '"', Bytes.ofText "\\ud800\"" ++ rest, rfl, by decide, ?_⟩
    have hpieces : pieces? (Bytes.ofText "\\ud800\"" ++ rest) = some ([.unit 0xD800], rest) :=
      pieces?_unit (pieces?_quote rest) (by decide)
    show (pieces? (Bytes.ofText "\\ud800\"" ++ rest)).map _ = _
    rw [hpieces]
    rfl

end Json
end Fleet
