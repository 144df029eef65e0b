import Cmsframe.Json.Literals

/-!
# Tokens and the grammar

The scanner takes the lexemes of the grammar and nothing else. No assertion of it fails.
-/

namespace Cmsframe

open Unicode (CodeUnit cesu8 cesu8_cons cesu8_nil cesu8_append asciiUnits)

section Numbers

variable {bytes rest : List UInt8}

theorem exists_digits (bytes : List UInt8) :
    ∃ digits, bytes = digits ++ skipDigits bytes ∧ (∀ byte ∈ digits, Decimal.IsDigit byte) ∧
      (startsWithDigit bytes = true → IsDigits digits) := by
  induction bytes with
  | nil => exact ⟨[], rfl, by simp, fun starts => absurd starts (by decide)⟩
  | cons byte bytes ih =>
      by_cases isDigit : Decimal.IsDigit byte
      · rcases ih with ⟨digits, same, areDigits, _⟩
        have all : ∀ other ∈ byte :: digits, Decimal.IsDigit other := by
          intro other mem
          rcases List.mem_cons.mp mem with rfl | mem
          · exact isDigit
          · exact areDigits other mem
        refine ⟨byte :: digits, ?_, all, fun _ => ⟨List.cons_ne_nil _ _, all⟩⟩
        rw [skipDigits, List.dropWhile_cons_of_pos (by simpa using isDigit), List.cons_append]
        exact congrArg (byte :: ·) same
      · refine ⟨[], ?_, by simp, ?_⟩
        · rw [skipDigits, List.dropWhile_cons_of_neg (by simpa using isDigit), List.nil_append]
        · intro starts
          simp [startsWithDigit, isDigit] at starts

theorem skipInteger_sound (skipped : skipInteger bytes = some rest) :
    bytes ≠ [] ∧ ∃ integer, bytes = integer ++ rest ∧
      (IsInteger integer ∨ integer = [] ∧ startsWithDigit bytes = false) := by
  cases bytes with
  | nil => cases skipped
  | cons first others =>
      refine ⟨List.cons_ne_nil _ _, ?_⟩
      rw [skipInteger] at skipped
      split_ifs at skipped with isZero follows
      · cases skipped
        subst isZero
        exact ⟨[0x30], rfl, .inl (.inl rfl)⟩
      · rcases exists_digits (first :: others) with ⟨digits, same, _, isDigits⟩
        rw [Option.some.injEq] at skipped
        rw [skipped] at same
        by_cases starts : startsWithDigit (first :: others) = true
        · refine ⟨digits, same, .inl (.inr ⟨isDigits starts, ?_⟩)⟩
          cases digits with
          | nil => exact absurd rfl (isDigits starts).1
          | cons digit digits =>
              cases same
              intro zero
              exact isZero (Option.some.inj zero)
        · refine ⟨[], ?_, .inr ⟨rfl, Bool.eq_false_iff.mpr starts⟩⟩
          have noDigit : ¬Decimal.IsDigit first := by simpa [startsWithDigit] using starts
          rw [← skipped, skipDigits, List.dropWhile_cons_of_neg (by simpa using noDigit),
            List.nil_append]

theorem skipFraction_sound (skipped : skipFraction bytes = some rest) :
    ∃ fraction, bytes = fraction ++ rest ∧ IsFraction fraction := by
  unfold skipFraction at skipped
  split at skipped
  · next others =>
      split_ifs at skipped with starts
      rcases exists_digits others with ⟨digits, same, _, isDigits⟩
      rw [Option.some.injEq] at skipped
      rw [skipped] at same
      exact ⟨0x2E :: digits, congrArg (0x2E :: ·) same, .inr ⟨digits, rfl, isDigits starts⟩⟩
  · cases skipped
    exact ⟨[], rfl, .inl rfl⟩

theorem exists_sign (bytes : List UInt8) :
    ∃ sign, bytes = sign ++ skipSign bytes ∧ (sign = [] ∨ sign = [0x2B] ∨ sign = [0x2D]) := by
  unfold skipSign
  split
  · exact ⟨[0x2B], rfl, .inr (.inl rfl)⟩
  · exact ⟨[0x2D], rfl, .inr (.inr rfl)⟩
  · exact ⟨[], rfl, .inl rfl⟩

theorem exponent_sound {letter : UInt8} (isLetter : letter = 0x65 ∨ letter = 0x45)
    {others : List UInt8}
    (skipped : (if startsWithDigit (skipSign others) then some (skipDigits (skipSign others))
      else none) = some rest) :
    ∃ exponent, letter :: others = exponent ++ rest ∧ IsExponentPart exponent := by
  split_ifs at skipped with starts
  rcases exists_sign others with ⟨sign, signed, isSign⟩
  rcases exists_digits (skipSign others) with ⟨digits, same, _, isDigits⟩
  rw [Option.some.injEq] at skipped
  rw [skipped] at same
  refine ⟨letter :: (sign ++ digits), ?_,
    .inr ⟨letter, sign, digits, rfl, isLetter, isSign, isDigits starts⟩⟩
  rw [List.cons_append, List.append_assoc, ← same, ← signed]

theorem skipExponent_sound (skipped : skipExponent bytes = some rest) :
    ∃ exponent, bytes = exponent ++ rest ∧ IsExponentPart exponent := by
  unfold skipExponent at skipped
  split at skipped
  · exact exponent_sound (.inl rfl) skipped
  · exact exponent_sound (.inr rfl) skipped
  · cases skipped
    exact ⟨[], rfl, .inl rfl⟩

/-- What the scanner takes for a number is one of its numerals. -/
theorem skipNumber_sound {first : UInt8} {others : List UInt8}
    (isFirst : first = 0x2D ∨ Decimal.IsDigit first)
    (skipped : skipNumber (first :: others) = some rest) :
    ∃ text, first :: others = text ++ rest ∧ IsScannedNumeral text ∧
      (text = [0x2D] → rest ≠ []) := by
  simp only [skipNumber, Option.bind_eq_bind, Option.bind_eq_some_iff] at skipped
  rcases skipped with ⟨afterInteger, skippedInteger, afterFraction, skippedFraction, skippedExponent⟩
  rcases skipInteger_sound skippedInteger with ⟨notEmpty, integer, isBytes, isInteger⟩
  rcases skipFraction_sound skippedFraction with ⟨fraction, rfl, isFraction⟩
  rcases skipExponent_sound skippedExponent with ⟨exponent, rfl, isExponent⟩
  by_cases isMinus : first = 0x2D
  · subst isMinus
    have unsigned : skipMinus (0x2D :: others) = others := rfl
    rw [unsigned] at isBytes notEmpty
    refine ⟨[0x2D] ++ integer ++ fraction ++ exponent, by simp [isBytes],
      ⟨[0x2D], integer, fraction, exponent, rfl, .inr rfl, ?_, isFraction, isExponent⟩, ?_⟩
    · rcases isInteger with isInteger | ⟨isMissing, _⟩
      · exact .inl isInteger
      · exact .inr ⟨rfl, isMissing⟩
    · intro single isEnd
      apply notEmpty
      simp only [List.append_assoc, List.cons_append, List.nil_append, List.cons.injEq,
        true_and] at single
      rw [isBytes, isEnd, List.append_nil, single]
  · have unsigned : skipMinus (first :: others) = first :: others := by
      unfold skipMinus
      split
      · next same =>
          cases same
          exact absurd rfl isMinus
      · rfl
    rw [unsigned] at isBytes isInteger
    have isDigit : Decimal.IsDigit first := isFirst.resolve_left isMinus
    have isInteger : IsInteger integer := by
      apply isInteger.resolve_right
      rintro ⟨_, noDigit⟩
      simp [startsWithDigit, isDigit] at noDigit
    refine ⟨integer ++ fraction ++ exponent, by simp [isBytes],
      ⟨[], integer, fraction, exponent, by simp, .inl rfl, .inl isInteger, isFraction,
        isExponent⟩, ?_⟩
    intro single
    rw [List.append_assoc, ← List.append_assoc] at single
    have head : first = 0x2D := by
      have same := isBytes
      rw [← List.append_assoc, ← List.append_assoc, single] at same
      cases same
      rfl
    exact absurd head isMinus

theorem isDigit_ascii {byte : UInt8} (isDigit : Decimal.IsDigit byte) : byte.toNat < 0x80 := by
  unfold Decimal.IsDigit at isDigit
  omega

theorem IsExponentPart.ascii {exponent : List UInt8} (isExponent : IsExponentPart exponent) :
    ∀ byte ∈ exponent, byte.toNat < 0x80 := by
  rcases isExponent with rfl | ⟨letter, sign, digits, rfl, isLetter, isSign, _, areDigits⟩
  · nofun
  · intro byte mem
    rcases List.mem_cons.mp mem with rfl | mem
    · rcases isLetter with rfl | rfl <;> decide
    · rcases List.mem_append.mp mem with mem | mem
      · rcases isSign with rfl | rfl | rfl
        · cases mem
        · rw [List.mem_singleton.mp mem]
          decide
        · rw [List.mem_singleton.mp mem]
          decide
      · exact isDigit_ascii (areDigits byte mem)

theorem IsInteger.ascii {integer : List UInt8} (isInteger : IsInteger integer) :
    ∀ byte ∈ integer, byte.toNat < 0x80 := by
  intro byte mem
  rcases isInteger with rfl | ⟨⟨_, areDigits⟩, _⟩
  · rw [List.mem_singleton.mp mem]
    decide
  · exact isDigit_ascii (areDigits byte mem)

theorem IsFraction.ascii {fraction : List UInt8} (isFraction : IsFraction fraction) :
    ∀ byte ∈ fraction, byte.toNat < 0x80 := by
  rcases isFraction with rfl | ⟨digits, rfl, _, areDigits⟩
  · nofun
  · intro byte mem
    rcases List.mem_cons.mp mem with rfl | mem
    · decide
    · exact isDigit_ascii (areDigits byte mem)

theorem IsScannedNumeral.ascii {text : List UInt8} (isNumeral : IsScannedNumeral text) :
    ∀ byte ∈ text, byte.toNat < 0x80 := by
  rcases isNumeral.parts with
    ⟨sign, integer, fraction, exponent, rfl, isSign, isInteger, isFraction, isExponent⟩
  intro byte mem
  simp only [List.mem_append] at mem
  rcases mem with ((mem | mem) | mem) | mem
  · rcases isSign with rfl | rfl
    · cases mem
    · rw [List.mem_singleton.mp mem]
      decide
  · rcases isInteger with isInteger | ⟨_, rfl⟩
    · exact isInteger.ascii byte mem
    · cases mem
  · exact isFraction.ascii byte mem
  · exact isExponent.ascii byte mem

theorem IsDigits.exists_first {digits : List UInt8} (isDigits : IsDigits digits) :
    ∃ first others, digits = first :: others ∧ Decimal.IsDigit first := by
  rcases isDigits with ⟨notEmpty, areDigits⟩
  cases digits with
  | nil => exact absurd rfl notEmpty
  | cons first others => exact ⟨first, others, rfl, areDigits first List.mem_cons_self⟩

theorem IsInteger.exists_first {integer : List UInt8} (isInteger : IsInteger integer) :
    ∃ first others, integer = first :: others ∧ Decimal.IsDigit first := by
  rcases isInteger with rfl | ⟨isDigits, _⟩
  · exact ⟨0x30, [], rfl, by decide⟩
  · exact isDigits.exists_first

/-- A numeral begins with a minus sign or a digit. -/
theorem IsScannedNumeral.exists_first {text : List UInt8} (isNumeral : IsScannedNumeral text) :
    ∃ first others, text = first :: others ∧ (first = 0x2D ∨ Decimal.IsDigit first) := by
  rcases isNumeral.parts with ⟨sign, integer, fraction, exponent, rfl, isSign, isInteger, _⟩
  rcases isSign with rfl | rfl
  · have isInteger : IsInteger integer := isInteger.resolve_right fun missing => nomatch missing.1
    rcases isInteger.exists_first with ⟨first, others, rfl, isDigit⟩
    exact ⟨first, others ++ fraction ++ exponent, by simp, .inr isDigit⟩
  · exact ⟨0x2D, integer ++ fraction ++ exponent, by simp, .inl rfl⟩

/-- What can follow a value: a space, a comma, a closing bracket, or the end. -/
def EndsValue (rest : List UInt8) : Prop :=
  ∀ byte ∈ rest.head?, isJsonSpace byte = true ∨ byte = 0x2C ∨ byte = 0x5D ∨ byte = 0x7D

theorem EndsValue.heads (closed : EndsValue rest) :
    startsWithDigit rest = false ∧ rest.head? ≠ some 0x2E ∧ rest.head? ≠ some 0x65 ∧
      rest.head? ≠ some 0x45 := by
  cases rest with
  | nil => exact ⟨rfl, by simp, (by simp), by simp⟩
  | cons byte rest =>
      have isClosing := closed byte rfl
      simp only [isJsonSpace, Bool.or_eq_true, decide_eq_true_eq] at isClosing
      rcases isClosing with (((rfl | rfl) | rfl) | rfl) | rfl | rfl | rfl <;>
        exact ⟨rfl, by simp, by simp, by simp⟩

theorem skipSign_append {sign digits : List UInt8}
    (isSign : sign = [] ∨ sign = [0x2B] ∨ sign = [0x2D]) (isDigits : IsDigits digits) :
    skipSign (sign ++ (digits ++ rest)) = digits ++ rest := by
  rcases isSign with rfl | rfl | rfl
  · rcases isDigits.exists_first with ⟨first, others, rfl, isDigit⟩
    unfold skipSign
    split
    · next same =>
        cases same
        exact absurd isDigit (by decide)
    · next same =>
        cases same
        exact absurd isDigit (by decide)
    · rfl
  · rfl
  · rfl

theorem skipExponent_isExponentPart {exponent : List UInt8} (isExponent : IsExponentPart exponent)
    (closed : EndsValue rest) : skipExponent (exponent ++ rest) = some rest := by
  rcases closed.heads with ⟨stop, _, noSmall, noCapital⟩
  rcases isExponent with rfl | ⟨letter, sign, digits, rfl, isLetter, isSign, isDigits⟩
  · rw [List.nil_append]
    unfold skipExponent
    split
    · exact absurd rfl noSmall
    · exact absurd rfl noCapital
    · rfl
  · have signed : skipSign (sign ++ (digits ++ rest)) = digits ++ rest :=
      skipSign_append isSign isDigits
    rcases isLetter with rfl | rfl <;>
      rw [List.cons_append, List.append_assoc, skipExponent, signed,
        if_pos isDigits.startsWithDigit, skipDigits_append isDigits.2 stop]

theorem startsWithDigit_exponent {exponent : List UInt8} (isExponent : IsExponentPart exponent)
    (closed : EndsValue rest) : startsWithDigit (exponent ++ rest) = false ∧
      (exponent ++ rest).head? ≠ some 0x2E := by
  rcases isExponent with rfl | ⟨letter, _, _, rfl, isLetter, _⟩
  · exact ⟨closed.heads.1, closed.heads.2.1⟩
  · rcases isLetter with rfl | rfl
    · exact ⟨rfl, by simp⟩
    · exact ⟨rfl, by simp⟩

theorem skipInteger_missing (notEmpty : bytes ≠ []) (stop : startsWithDigit bytes = false) :
    skipInteger bytes = some bytes := by
  cases bytes with
  | nil => exact absurd rfl notEmpty
  | cons first others =>
      have noDigit : ¬Decimal.IsDigit first := by simpa [startsWithDigit] using stop
      have noZero : first ≠ 0x30 := by
        rintro rfl
        exact noDigit (by decide)
      rw [skipInteger, if_neg noZero, skipDigits,
        List.dropWhile_cons_of_neg (by simpa using noDigit)]

/-- Every numeral of the scanner is scanned as a whole, but for a minus sign at the end. -/
theorem skipNumber_complete {text : List UInt8} (isNumeral : IsScannedNumeral text)
    (closed : EndsValue rest) (notBare : text = [0x2D] → rest ≠ []) :
    skipNumber (text ++ rest) = some rest := by
  rcases isNumeral.parts with
    ⟨sign, integer, fraction, exponent, rfl, isSign, isInteger, isFraction, isExponent⟩
  have afterFraction := startsWithDigit_exponent isExponent closed
  have afterInteger : startsWithDigit (fraction ++ (exponent ++ rest)) = false := by
    rcases isFraction with rfl | ⟨_, rfl, _⟩
    · exact afterFraction.1
    · rfl
  have unsigned : skipMinus (sign ++ (integer ++ (fraction ++ (exponent ++ rest)))) =
      integer ++ (fraction ++ (exponent ++ rest)) := by
    rcases isSign with rfl | rfl
    · have isInteger : IsInteger integer := isInteger.resolve_right fun missing => nomatch missing.1
      rcases isInteger.exists_first with ⟨first, others, rfl, isDigit⟩
      unfold skipMinus
      split
      · next same =>
          cases same
          exact absurd isDigit (by decide)
      · rfl
    · rfl
  have skippedInteger : skipInteger (integer ++ (fraction ++ (exponent ++ rest))) =
      some (fraction ++ (exponent ++ rest)) := by
    rcases isInteger with isInteger | ⟨rfl, rfl⟩
    · exact skipInteger_append isInteger afterInteger
    · apply skipInteger_missing _ afterInteger
      intro isEnd
      simp only [List.append_eq_nil_iff] at isEnd
      rcases isEnd with ⟨rfl, rfl, rfl⟩
      exact notBare rfl rfl
  simp only [skipNumber, List.append_assoc, unsigned, skippedInteger, Option.bind_eq_bind,
    Option.bind_some, skipFraction_append isFraction afterFraction.1 afterFraction.2]
  exact skipExponent_isExponentPart isExponent closed

end Numbers

section Tokens

variable {numbers : NumberConversion}

/-- The text of a token. -/
inductive Lexeme (numbers : NumberConversion) : List CodeUnit → JsonToken → Prop where
  | leftBrace : Lexeme numbers [0x7B] .leftBrace
  | rightBrace : Lexeme numbers [0x7D] .rightBrace
  | leftSquare : Lexeme numbers [0x5B] .leftSquare
  | rightSquare : Lexeme numbers [0x5D] .rightSquare
  | comma : Lexeme numbers [0x2C] .comma
  | colon : Lexeme numbers [0x3A] .colon
  | null : Lexeme numbers (asciiUnits (asciiBytes "null")) .null
  | true : Lexeme numbers (asciiUnits (asciiBytes "true")) .true
  | false : Lexeme numbers (asciiUnits (asciiBytes "false")) .false
  | number {bytes : List UInt8} (isNumeral : IsScannedNumeral bytes) :
      Lexeme numbers (asciiUnits bytes) (.number (numbers.fromDecimal bytes))
  | string {text units : List CodeUnit} (isString : StringText text units) :
      Lexeme numbers (quoted text) (.string (cesu8 units))

/-- What the scanner finds at a position: a lexeme behind spaces, the end, or nothing. -/
inductive Scanned (numbers : NumberConversion) (parseString : Bool) (start : List CodeUnit) :
    JsonToken → List UInt8 → Prop where
  | lexeme {before body rest : List CodeUnit} {token : JsonToken}
      (split : start = before ++ body ++ rest) (areSpaces : AreSpaces before)
      (isLexeme : Lexeme numbers body token)
      (allowed : ∀ bytes, token = .string bytes → parseString = true)
      (notBare : body = [0x2D] → rest ≠ []) :
      Scanned numbers parseString start token (cesu8 rest)
  | endOfStream (areSpaces : AreSpaces start) :
      Scanned numbers parseString start .endOfStream (cesu8 start)
  | invalid (next : List UInt8) : Scanned numbers parseString start .invalid next

theorem asciiUnits_ne_minus {bytes : List UInt8} (ascii : ∀ byte ∈ bytes, byte.toNat < 0x80)
    (single : asciiUnits bytes = [0x2D]) : bytes = [0x2D] := by
  have back := Unicode.cesu8_asciiUnits ascii
  rw [single] at back
  exact back.symm

/-- The tokens of one character. -/
theorem scanned_single {parseString : Bool} {before units : List CodeUnit} {unit : CodeUnit}
    {byte : UInt8} {others : List UInt8} {token : JsonToken} (areSpaces : AreSpaces before)
    (bytes : cesu8 (unit :: units) = byte :: others)
    (isLexeme : Lexeme numbers [UInt16.ofNat byte.toNat] token) (small : byte.toNat < 0x80)
    (notMinus : UInt16.ofNat byte.toNat ≠ 0x2D) (noString : ∀ bytes, token ≠ .string bytes) :
    Scanned numbers parseString (before ++ unit :: units) token others := by
  rcases eq_unit_of_head small bytes with ⟨rfl, rfl⟩
  apply Scanned.lexeme (by simp) areSpaces isLexeme
  · intro bytes isString
    exact absurd isString (noString bytes)
  · intro single
    exact absurd (List.cons.inj single).1 notMinus

theorem scanned_keyword {parseString : Bool} {before rest : List CodeUnit} {token : JsonToken}
    {keyword start : List UInt8} (areSpaces : AreSpaces before)
    (ascii : ∀ byte ∈ keyword, byte.toNat < 0x80)
    (isLexeme : Lexeme numbers (asciiUnits keyword) token) (notMinus : asciiUnits keyword ≠ [0x2D])
    (noString : ∀ bytes, token ≠ .string bytes) :
    ∃ found next, parseKeyword token keyword start (cesu8 rest) = (found, next) ∧
      Scanned numbers parseString (before ++ rest) found next := by
  rw [parseKeyword]
  split_ifs with isPrefix
  · rcases isPrefix with ⟨behind, same⟩
    rcases exists_units_of_ascii ascii same with ⟨others, rfl, rfl⟩
    refine ⟨token, _, rfl, ?_⟩
    rw [← same, List.drop_left]
    apply Scanned.lexeme (by simp) areSpaces isLexeme
    · intro bytes isString
      exact absurd isString (noString bytes)
    · intro single
      exact absurd single notMinus
  · exact ⟨.invalid, start, rfl, .invalid start⟩

theorem scanned_number {parseString : Bool} {before rest : List CodeUnit} {first : UInt8}
    {others : List UInt8} (areSpaces : AreSpaces before) (bytes : cesu8 rest = first :: others)
    (isFirst : first = 0x2D ∨ Decimal.IsDigit first) :
    ∃ found next, ecmaBuiltinJsonParseNumber numbers (first :: others) = (found, next) ∧
      Scanned numbers parseString (before ++ rest) found next := by
  rw [ecmaBuiltinJsonParseNumber]
  cases skipped : skipNumber (first :: others) with
  | none => exact ⟨.invalid, _, rfl, .invalid _⟩
  | some behind =>
      rcases skipNumber_sound isFirst skipped with ⟨text, same, isNumeral, notBare⟩
      rw [same] at bytes
      rcases exists_units_of_ascii isNumeral.ascii bytes.symm with ⟨units, rfl, rfl⟩
      refine ⟨_, _, rfl, ?_⟩
      rw [same, List.length_append, Nat.add_sub_cancel_right, List.take_left]
      apply Scanned.lexeme (by simp) areSpaces (.number isNumeral)
      · intro bytes isString
        cases isString
      · intro single isEnd
        rw [isEnd] at notBare
        exact notBare (asciiUnits_ne_minus isNumeral.ascii single) rfl

theorem scanned_string {before units : List CodeUnit} (areSpaces : AreSpaces before) :
    ∃ found next, ecmaBuiltinJsonParseString (cesu8 units) = .ok (found, next) ∧
      Scanned numbers true (before ++ 0x22 :: units) found next := by
  rw [ecmaBuiltinJsonParseString]
  rcases @parseStringLoop_sound [] [] units.length units le_rfl with
    invalid | ⟨body, string, rest, rfl, isString, scanned⟩
  · rw [invalid]
    exact ⟨.invalid, _, rfl, .invalid _⟩
  · rw [scanned]
    refine ⟨_, _, rfl, ?_⟩
    apply Scanned.lexeme (by simp [quoted]) areSpaces (.string isString)
    · exact fun _ _ => rfl
    · intro single
      simp [quoted] at single

/-- The scanner reads a token at every position, and what it reads belongs to the grammar. -/
theorem nextToken_sound (parseString : Bool) (start : List CodeUnit) :
    ∃ token next, ecmaBuiltinJsonParseNextToken numbers (cesu8 start) parseString =
      .ok (token, next) ∧ Scanned numbers parseString start token next := by
  rcases exists_spaces start with ⟨before, rest, rfl, areSpaces, dropped⟩
  rw [ecmaBuiltinJsonParseNextToken, dropped]
  cases rest with
  | nil =>
      refine ⟨.endOfStream, _, rfl, ?_⟩
      rw [List.append_nil]
      exact .endOfStream areSpaces
  | cons unit units =>
      cases bytes : cesu8 (unit :: units) with
      | nil =>
          rw [cesu8_cons] at bytes
          exact absurd (List.append_eq_nil_iff.mp bytes).1 (Unicode.encode_ne_nil _)
      | cons first others =>
          simp only
          by_cases leftBrace : first = 0x7B
          · subst leftBrace
            exact ⟨_, _, rfl,
              scanned_single areSpaces bytes .leftBrace (by decide) (by decide) (by simp)⟩
          rw [if_neg leftBrace]
          by_cases rightBrace : first = 0x7D
          · subst rightBrace
            exact ⟨_, _, rfl,
              scanned_single areSpaces bytes .rightBrace (by decide) (by decide) (by simp)⟩
          rw [if_neg rightBrace]
          by_cases leftSquare : first = 0x5B
          · subst leftSquare
            exact ⟨_, _, rfl,
              scanned_single areSpaces bytes .leftSquare (by decide) (by decide) (by simp)⟩
          rw [if_neg leftSquare]
          by_cases rightSquare : first = 0x5D
          · subst rightSquare
            exact ⟨_, _, rfl,
              scanned_single areSpaces bytes .rightSquare (by decide) (by decide) (by simp)⟩
          rw [if_neg rightSquare]
          by_cases comma : first = 0x2C
          · subst comma
            exact ⟨_, _, rfl,
              scanned_single areSpaces bytes .comma (by decide) (by decide) (by simp)⟩
          rw [if_neg comma]
          by_cases colon : first = 0x3A
          · subst colon
            exact ⟨_, _, rfl,
              scanned_single areSpaces bytes .colon (by decide) (by decide) (by simp)⟩
          rw [if_neg colon]
          by_cases quote : first = 0x22
          · subst quote
            rcases eq_unit_of_head (by decide) bytes with ⟨rfl, rfl⟩
            cases parseString with
            | false => exact ⟨.invalid, _, rfl, .invalid _⟩
            | true => exact scanned_string areSpaces
          rw [if_neg quote, ← bytes]
          by_cases isNull : first = 0x6E
          · rw [if_pos isNull]
            rcases scanned_keyword areSpaces (Unicode.ascii_of_all rfl) .null (by decide)
              (by simp) with ⟨found, next, same, scanned⟩
            exact ⟨found, next, congrArg Except.ok same, scanned⟩
          rw [if_neg isNull]
          by_cases isTrue : first = 0x74
          · rw [if_pos isTrue]
            rcases scanned_keyword areSpaces (Unicode.ascii_of_all rfl) .true (by decide)
              (by simp) with ⟨found, next, same, scanned⟩
            exact ⟨found, next, congrArg Except.ok same, scanned⟩
          rw [if_neg isTrue]
          by_cases isFalse : first = 0x66
          · rw [if_pos isFalse]
            rcases scanned_keyword areSpaces (Unicode.ascii_of_all rfl) .false (by decide)
              (by simp) with ⟨found, next, same, scanned⟩
            exact ⟨found, next, congrArg Except.ok same, scanned⟩
          rw [if_neg isFalse]
          by_cases isFirst : first = 0x2D ∨ Decimal.IsDigit first
          · rw [if_pos isFirst, bytes]
            rcases scanned_number areSpaces bytes isFirst with ⟨found, next, same, scanned⟩
            exact ⟨found, next, congrArg Except.ok same, scanned⟩
          rw [if_neg isFirst]
          exact ⟨.invalid, _, rfl, .invalid _⟩

variable {parseString : Bool} {before : List CodeUnit} (rest : List UInt8)

/-- At the end there are only spaces. -/
theorem nextToken_endOfStream (areSpaces : AreSpaces before) :
    ecmaBuiltinJsonParseNextToken numbers (cesu8 before) parseString =
      .ok (.endOfStream, cesu8 before) := by
  have dropped := dropWhile_spaces areSpaces []
  rw [List.append_nil] at dropped
  rw [ecmaBuiltinJsonParseNextToken, dropped]
  rfl

theorem nextToken_keyword (areSpaces : AreSpaces before) :
    ecmaBuiltinJsonParseNextToken numbers
        (cesu8 before ++ (cesu8 (asciiUnits (asciiBytes "null")) ++ rest)) parseString =
      .ok (.null, rest) ∧
    ecmaBuiltinJsonParseNextToken numbers
        (cesu8 before ++ (cesu8 (asciiUnits (asciiBytes "true")) ++ rest)) parseString =
      .ok (.true, rest) ∧
    ecmaBuiltinJsonParseNextToken numbers
        (cesu8 before ++ (cesu8 (asciiUnits (asciiBytes "false")) ++ rest)) parseString =
      .ok (.false, rest) := by
  refine ⟨?_, ?_, ?_⟩
  · rw [ecmaBuiltinJsonParseNextToken, dropWhile_spaces areSpaces]
    exact congrArg Except.ok (parseKeyword_append rest .null (asciiBytes "null") _)
  · rw [ecmaBuiltinJsonParseNextToken, dropWhile_spaces areSpaces]
    exact congrArg Except.ok (parseKeyword_append rest .true (asciiBytes "true") _)
  · rw [ecmaBuiltinJsonParseNextToken, dropWhile_spaces areSpaces]
    exact congrArg Except.ok (parseKeyword_append rest .false (asciiBytes "false") _)

theorem nextToken_numeral (areSpaces : AreSpaces before) {text : List UInt8}
    (isNumeral : IsScannedNumeral text) (closed : EndsValue rest)
    (notBare : text = [0x2D] → rest ≠ []) :
    ecmaBuiltinJsonParseNextToken numbers (cesu8 before ++ (cesu8 (asciiUnits text) ++ rest))
      parseString = .ok (.number (numbers.fromDecimal text), rest) := by
  have scanned : ecmaBuiltinJsonParseNumber numbers (text ++ rest) =
      (.number (numbers.fromDecimal text), rest) := by
    rw [ecmaBuiltinJsonParseNumber, skipNumber_complete isNumeral closed notBare]
    simp
  rw [ecmaBuiltinJsonParseNextToken, dropWhile_spaces areSpaces,
    Unicode.cesu8_asciiUnits isNumeral.ascii]
  rcases isNumeral.exists_first with ⟨first, others, rfl, isFirst⟩
  have other : ∀ byte : UInt8, byte ≠ 0x2D → ¬Decimal.IsDigit byte → first ≠ byte := by
    rintro byte notMinus notDigit rfl
    rcases isFirst with isMinus | isDigit
    · exact notMinus isMinus
    · exact notDigit isDigit
  have noSpace : ¬isJsonSpace first = true := by
    simp [isJsonSpace, other 0x20 (by decide) (by decide), other 0x0D (by decide) (by decide),
      other 0x0A (by decide) (by decide), other 0x09 (by decide) (by decide)]
  rw [List.cons_append] at scanned ⊢
  rw [List.dropWhile_cons_of_neg noSpace]
  simp only [if_neg (other 0x7B (by decide) (by decide)),
    if_neg (other 0x7D (by decide) (by decide)), if_neg (other 0x5B (by decide) (by decide)),
    if_neg (other 0x5D (by decide) (by decide)), if_neg (other 0x2C (by decide) (by decide)),
    if_neg (other 0x3A (by decide) (by decide)), if_neg (other 0x22 (by decide) (by decide)),
    if_neg (other 0x6E (by decide) (by decide)), if_neg (other 0x74 (by decide) (by decide)),
    if_neg (other 0x66 (by decide) (by decide)), if_pos isFirst, scanned]
  rfl

theorem nextToken_quoted (areSpaces : AreSpaces before) {text units : List CodeUnit}
    (isString : StringText text units) :
    ecmaBuiltinJsonParseNextToken numbers (cesu8 before ++ (cesu8 (quoted text) ++ rest)) true =
      .ok (.string (cesu8 units), rest) := by
  have bytes : cesu8 (quoted text) ++ rest = 0x22 :: (cesu8 text ++ 0x22 :: rest) := by
    simp [quoted, Unicode.encode]
  rw [ecmaBuiltinJsonParseNextToken, dropWhile_spaces areSpaces, bytes]
  change ecmaBuiltinJsonParseString _ = _
  rw [ecmaBuiltinJsonParseString, parseStringLoop_complete isString]
  rfl

/-- The tokens of one character. -/
theorem nextToken_single (areSpaces : AreSpaces before) {byte : UInt8} {token : JsonToken}
    (isSingle : (byte, token) ∈ [(0x7B, .leftBrace), (0x7D, .rightBrace), (0x5B, .leftSquare),
      (0x5D, .rightSquare), (0x2C, .comma), (0x3A, .colon)]) :
    ecmaBuiltinJsonParseNextToken numbers (cesu8 before ++ byte :: rest) parseString =
      .ok (token, rest) := by
  rw [ecmaBuiltinJsonParseNextToken, dropWhile_spaces areSpaces]
  simp only [List.mem_cons, Prod.mk.injEq, List.not_mem_nil, or_false] at isSingle
  rcases isSingle with ⟨rfl, rfl⟩ | ⟨rfl, rfl⟩ | ⟨rfl, rfl⟩ | ⟨rfl, rfl⟩ | ⟨rfl, rfl⟩ | ⟨rfl, rfl⟩ <;>
    rfl

end Tokens

end Cmsframe
