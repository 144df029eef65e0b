import Cmsframe.Json.Text
import Cmsframe.Json.Serialize

/-!
# JSON tokens

The scanner of `ecma_builtin_json_parse_buffer`, on the CESU-8 bytes of a string: the text
of every string literal and of every number is read back as it was written.
-/

namespace Cmsframe

open Unicode

/-- `ecma_json_token_t`: the type, with the field of the union that belongs to it. A string
token holds the bytes of the string builder. -/
inductive JsonToken where
  | invalid
  | endOfStream
  | number (value : EcmaNumber)
  | string (bytes : List UInt8)
  | null
  | true
  | false
  | leftBrace
  | rightBrace
  | leftSquare
  | rightSquare
  | comma
  | colon
  deriving DecidableEq

/-- Why parsing stops: the value is `ECMA_VALUE_EMPTY`, read off a token. -/
inductive ParseStop where
  | assertion
  | outOfFuel
  | empty (token : JsonToken)
  deriving DecidableEq

/-- The characters that stand for themselves or for one control character after a
backslash. -/
def escapedByte (character : UInt8) : Option UInt8 :=
  if character = 0x22 ∨ character = 0x2F ∨ character = 0x5C then some character
  else if character = 0x62 then some 0x08
  else if character = 0x66 then some 0x0C
  else if character = 0x6E then some 0x0A
  else if character = 0x72 then some 0x0D
  else if character = 0x74 then some 0x09
  else none

/-- The loop of `ecma_builtin_json_parse_string`. `unappended` is what lies between
`unappended_p` and `current_p`. The result is what the builder holds and what follows the
string; without one the string is invalid. -/
def parseStringLoop (builder unappended : List UInt8) :
    List UInt8 → Except ParseStop (Option (List UInt8 × List UInt8))
  | [] => return none
  | byte :: rest =>
      if byte.toNat ≤ 0x1F then
        return none
      else if byte = 0x22 then
        return some (builder ++ unappended, rest)
      else if 0xF0 ≤ byte.toNat then
        match rest with
        | second :: third :: fourth :: rest =>
            match litReadCodePointFromUtf8 [byte, second, third, fourth] with
            | some (codePoint, 4) =>
                match litCodePointToCesu8Bytes codePoint with
                | some bytes => parseStringLoop (builder ++ unappended ++ bytes) [] rest
                | none => throw .assertion
            | _ => throw .assertion
        | _ => throw .assertion
      else if byte = 0x5C then
        match rest with
        | [] => return none
        | character :: rest =>
            match escapedByte character with
            | some byte => parseStringLoop (builder ++ unappended ++ [byte]) [] rest
            | none =>
                if character = 0x75 then
                  match rest with
                  | first :: second :: third :: fourth :: rest =>
                      match litCharHexLookup [first, second, third, fourth] 4 with
                      | some value =>
                          match litCodePointToCesu8Bytes value with
                          | some bytes =>
                              parseStringLoop (builder ++ unappended ++ bytes) [] rest
                          | none => throw .assertion
                      | none => return none
                  | _ => return none
                else
                  return none
      else
        parseStringLoop builder (unappended ++ [byte]) rest

/-- `ecma_builtin_json_parse_string`: the token, and the position after it. -/
def ecmaBuiltinJsonParseString (current : List UInt8) :
    Except ParseStop (JsonToken × List UInt8) := do
  match ← parseStringLoop [] [] current with
  | some (bytes, rest) => return (.string bytes, rest)
  | none => return (.invalid, current)

/-- The loops over decimal digits. -/
def skipDigits (bytes : List UInt8) : List UInt8 := bytes.dropWhile (Decimal.IsDigit ·)

/-- `lit_char_is_decimal_digit` at the current position. -/
def startsWithDigit (bytes : List UInt8) : Bool := bytes.head?.any (Decimal.IsDigit ·)

def skipMinus (bytes : List UInt8) : List UInt8 :=
  match bytes with
  | 0x2D :: rest => rest
  | _ => bytes

/-- The integer part of a number. Digits may be missing. -/
def skipInteger (bytes : List UInt8) : Option (List UInt8) :=
  match bytes with
  | [] => none
  | first :: rest =>
      if first = 0x30 then
        if startsWithDigit rest then none else some rest
      else
        some (skipDigits bytes)

def skipFraction (bytes : List UInt8) : Option (List UInt8) :=
  match bytes with
  | 0x2E :: rest => if startsWithDigit rest then some (skipDigits rest) else none
  | _ => some bytes

def skipSign (bytes : List UInt8) : List UInt8 :=
  match bytes with
  | 0x2B :: rest | 0x2D :: rest => rest
  | _ => bytes

def skipExponent (bytes : List UInt8) : Option (List UInt8) :=
  match bytes with
  | 0x65 :: rest | 0x45 :: rest =>
      if startsWithDigit (skipSign rest) then some (skipDigits (skipSign rest)) else none
  | _ => some bytes

/-- What follows a number. -/
def skipNumber (bytes : List UInt8) : Option (List UInt8) := do
  let bytes ← skipInteger (skipMinus bytes)
  let bytes ← skipFraction bytes
  skipExponent bytes

/-- `ecma_builtin_json_parse_number`. -/
def ecmaBuiltinJsonParseNumber (numbers : NumberConversion) (start : List UInt8) :
    JsonToken × List UInt8 :=
  match skipNumber start with
  | some rest => (.number (numbers.fromDecimal (start.take (start.length - rest.length))), rest)
  | none => (.invalid, start)

/-- The characters between tokens. -/
def isJsonSpace (byte : UInt8) : Bool :=
  byte = 0x20 || byte = 0x0D || byte = 0x0A || byte = 0x09

/-- A comparison with the text of a magic string. -/
def parseKeyword (token : JsonToken) (keyword : List UInt8) (start current : List UInt8) :
    JsonToken × List UInt8 :=
  if keyword <+: current then (token, current.drop keyword.length) else (.invalid, start)

/-- `ecma_builtin_json_parse_next_token`. -/
def ecmaBuiltinJsonParseNextToken (numbers : NumberConversion) (start : List UInt8)
    (parseString : Bool) : Except ParseStop (JsonToken × List UInt8) :=
  let current := start.dropWhile isJsonSpace
  match current with
  | [] => return (.endOfStream, start)
  | first :: rest =>
      if first = 0x7B then return (.leftBrace, rest)
      else if first = 0x7D then return (.rightBrace, rest)
      else if first = 0x5B then return (.leftSquare, rest)
      else if first = 0x5D then return (.rightSquare, rest)
      else if first = 0x2C then return (.comma, rest)
      else if first = 0x3A then return (.colon, rest)
      else if first = 0x22 then
        if parseString then ecmaBuiltinJsonParseString rest else return (.invalid, start)
      else if first = 0x6E then return parseKeyword .null (asciiBytes "null") start current
      else if first = 0x74 then return parseKeyword .true (asciiBytes "true") start current
      else if first = 0x66 then return parseKeyword .false (asciiBytes "false") start current
      else if first = 0x2D ∨ Decimal.IsDigit first then
        return ecmaBuiltinJsonParseNumber numbers current
      else
        return (.invalid, start)

section Strings

variable {builder unappended tail : List UInt8}

/-- A byte that stands for itself in a string literal. -/
def IsPlainByte (byte : UInt8) : Prop :=
  0x20 ≤ byte.toNat ∧ byte ≠ 0x22 ∧ byte ≠ 0x5C ∧ byte.toNat < 0xF0

theorem parseStringLoop_plain {run : List UInt8} (plain : ∀ byte ∈ run, IsPlainByte byte) :
    parseStringLoop builder unappended (run ++ tail) =
      parseStringLoop builder (unappended ++ run) tail := by
  induction run generalizing unappended with
  | nil => rw [List.nil_append, List.append_nil]
  | cons byte run ih =>
      rcases plain byte List.mem_cons_self with ⟨notControl, notQuote, notBackslash, notFour⟩
      have control : ¬byte.toNat ≤ 0x1F := by omega
      have four : ¬0xF0 ≤ byte.toNat := by omega
      rw [List.cons_append, parseStringLoop.eq_def]
      simp only [if_neg control, if_neg notQuote, if_neg four, if_neg notBackslash]
      rw [ih fun other mem => plain other (List.mem_cons_of_mem byte mem), List.append_assoc,
        List.singleton_append]

theorem parseStringLoop_end (rest : List UInt8) :
    parseStringLoop builder unappended (0x22 :: rest) = .ok (some (builder ++ unappended, rest)) := by
  have control : ¬(0x22 : UInt8).toNat ≤ 0x1F := by decide
  rw [parseStringLoop.eq_def]
  simp only [if_neg control, if_true]
  rfl

/-- After a backslash. -/
theorem parseStringLoop_escaped {character byte : UInt8}
    (isEscaped : escapedByte character = some byte) :
    parseStringLoop builder unappended (0x5C :: character :: tail) =
      parseStringLoop (builder ++ unappended ++ [byte]) [] tail := by
  rw [parseStringLoop.eq_def]
  have control : ¬(0x5C : UInt8).toNat ≤ 0x1F := by decide
  have four : ¬0xF0 ≤ (0x5C : UInt8).toNat := by decide
  have quote : (0x5C : UInt8) ≠ 0x22 := by decide
  simp only [if_neg control, if_neg quote, if_neg four, if_true, isEscaped]

theorem hexDigit_spec : ∀ digit : Fin 16, litCharIsHexDigit (hexDigit digit.val) = true ∧
    litCharHexToInt (hexDigit digit.val) = digit.val := by
  decide

theorem hexLookup_hexDigit (value : ℕ) {digit : ℕ} (small : digit < 16) (rest : List UInt8) :
    hexLookup value (hexDigit digit :: rest) = hexLookup (value * 16 + digit) rest := by
  rcases hexDigit_spec ⟨digit, small⟩ with ⟨isDigit, toInt⟩
  simp only at isDigit toInt
  rw [hexLookup, if_pos isDigit, toInt, Nat.shiftLeft_eq]

/-- The digits of a code unit are read back. -/
theorem litCharHexLookup_escape {unit : ℕ} (bound : unit < 0x10000) :
    litCharHexLookup [hexDigit (unit >>> 12 &&& 0xF), hexDigit (unit >>> 8 &&& 0xF),
      hexDigit (unit >>> 4 &&& 0xF), hexDigit (unit &&& 0xF)] 4 = some unit := by
  have masked : ∀ value, value &&& 0xF = value % 16 := fun value =>
    Nat.and_two_pow_sub_one_eq_mod value 4
  have small : ∀ value, value &&& 0xF < 16 := by
    intro value
    rw [masked]
    exact Nat.mod_lt value (by norm_num)
  rw [litCharHexLookup, if_neg (by simp), List.take_of_length_le (by simp)]
  rw [hexLookup_hexDigit _ (small _), hexLookup_hexDigit _ (small _), hexLookup_hexDigit _ (small _),
    hexLookup_hexDigit _ (small _), hexLookup, masked, masked, masked, masked,
    Nat.shiftRight_eq_div_pow, Nat.shiftRight_eq_div_pow, Nat.shiftRight_eq_div_pow]
  congr 1
  omega

theorem parseStringLoop_unicode {unit : ℕ} (bound : unit < 0x10000) :
    parseStringLoop builder unappended (litCharUnicodeEscape unit ++ tail) =
      parseStringLoop (builder ++ unappended ++ encode unit) [] tail := by
  rw [litCharUnicodeEscape, List.cons_append, List.cons_append, parseStringLoop.eq_def]
  have control : ¬(0x5C : UInt8).toNat ≤ 0x1F := by decide
  have four : ¬0xF0 ≤ (0x5C : UInt8).toNat := by decide
  have quote : (0x5C : UInt8) ≠ 0x22 := by decide
  have notByte : escapedByte 0x75 = none := by decide
  simp only [if_neg control, if_neg quote, if_neg four, if_true, notByte, List.cons_append,
    List.nil_append, litCharHexLookup_escape bound, litCodePointToCesu8Bytes_unit bound]

/-- An escape for a control character or a lone surrogate is read as that code unit. -/
theorem parseStringLoop_escapeControl {unit : ℕ} (bound : unit < 0x10000) :
    parseStringLoop builder unappended (escapeControl unit ++ tail) =
      parseStringLoop (builder ++ unappended ++ encode unit) [] tail := by
  unfold escapeControl
  split_ifs with backspace formFeed lineFeed carriageReturn tab
  · subst backspace
    exact parseStringLoop_escaped rfl
  · subst formFeed
    exact parseStringLoop_escaped rfl
  · subst lineFeed
    exact parseStringLoop_escaped rfl
  · subst carriageReturn
    exact parseStringLoop_escaped rfl
  · subst tab
    exact parseStringLoop_escaped rfl
  · exact parseStringLoop_unicode bound

/-- The bytes of a code unit that is neither a quote, a backslash nor a control character. -/
theorem isPlainByte_of_mem_encode {unit : ℕ} (bound : unit < 0x10000) (above : 0x20 ≤ unit)
    (notQuote : unit ≠ 0x22) (notBackslash : unit ≠ 0x5C) {byte : UInt8}
    (mem : byte ∈ encode unit) : IsPlainByte byte := by
  have control := Unicode.le_of_mem_encode above (by norm_num) mem
  by_cases one : unit ≤ 0x7F
  · rw [encode_of_le_one one, List.mem_singleton] at mem
    have value : byte.toNat = unit := by
      rw [mem, UInt8.toNat_ofNat']
      omega
    refine ⟨control, ?_, ?_, by omega⟩
    · rintro rfl
      exact notQuote value.symm
    · rintro rfl
      exact notBackslash value.symm
  · have large : 0x80 ≤ byte.toNat := Unicode.le_of_mem_encode (by omega) le_rfl mem
    refine ⟨control, ?_, ?_, ?_⟩
    · rintro rfl
      exact absurd large (by decide)
    · rintro rfl
      exact absurd large (by decide)
    · by_cases two : unit ≤ 0x7FF
      · rw [encode_of_le_two (by omega) two] at mem
        simp only [List.mem_cons, List.not_mem_nil, or_false] at mem
        rcases mem with rfl | rfl <;> rw [UInt8.toNat_ofNat'] <;> omega
      · rw [encode_of_le_three (by omega) (by omega)] at mem
        simp only [List.mem_cons, List.not_mem_nil, or_false] at mem
        rcases mem with rfl | rfl | rfl <;> rw [UInt8.toNat_ofNat'] <;> omega

/-- One code unit that is not part of a pair. -/
theorem parseStringLoop_escapeUnit (unit : CodeUnit) :
    ∃ holds copied, holds ++ copied = builder ++ unappended ++ encode unit.toNat ∧
      parseStringLoop builder unappended (cesu8 (escapeUnit unit) ++ tail) =
        parseStringLoop holds copied tail := by
  have bound : unit.toNat < 0x10000 := unit.toNat_lt
  have escaped : cesu8 (asciiUnits (escapeControl unit.toNat)) = escapeControl unit.toNat :=
    cesu8_asciiUnits (escapeControl_ascii unit.toNat)
  unfold escapeUnit
  split_ifs with surrogate quoted control
  · rw [escaped, parseStringLoop_escapeControl bound]
    exact ⟨_, _, List.append_nil _, rfl⟩
  · have encoded : encode unit.toNat = [UInt8.ofNat unit.toNat] := encode_of_le_one (by omega)
    have backslash : cesu8 [0x5C, unit] = [0x5C, UInt8.ofNat unit.toNat] := by
      rw [cesu8_cons, cesu8_cons, encoded]
      rfl
    have isEscaped : escapedByte (UInt8.ofNat unit.toNat) = some (UInt8.ofNat unit.toNat) := by
      rcases quoted with same | same <;> rw [same] <;> rfl
    rw [backslash, encoded]
    exact ⟨_, _, List.append_nil _, parseStringLoop_escaped isEscaped⟩
  · rw [escaped, parseStringLoop_escapeControl bound]
    exact ⟨_, _, List.append_nil _, rfl⟩
  · refine ⟨builder, unappended ++ encode unit.toNat, (List.append_assoc _ _ _).symm, ?_⟩
    rw [cesu8_cons, cesu8_nil, List.append_nil]
    apply parseStringLoop_plain
    intro byte mem
    exact isPlainByte_of_mem_encode bound (by omega) (by omega) (by omega) mem

/-- A string literal is read as the string it was written for. -/
theorem parseStringLoop_escapeUnits (units : List CodeUnit) (rest : List UInt8) :
    parseStringLoop builder unappended (cesu8 (escapeUnits units) ++ 0x22 :: rest) =
      .ok (some (builder ++ unappended ++ cesu8 units, rest)) := by
  induction units using escapeUnits.induct generalizing builder unappended with
  | case1 =>
      rw [escapeUnits, cesu8_nil, List.nil_append, List.append_nil, parseStringLoop_end]
  | case2 unit =>
      rcases @parseStringLoop_escapeUnit builder unappended (0x22 :: rest) unit with
        ⟨holds, copied, same, step⟩
      rw [escapeUnits, step, parseStringLoop_end, same, cesu8_cons, cesu8_nil, List.append_nil]
  | case3 first second others pair ih =>
      have copied : ∀ unit : CodeUnit, IsHighSurrogate unit.toNat ∨ IsLowSurrogate unit.toNat →
          ∀ byte ∈ encode unit.toNat, IsPlainByte byte := by
        intro unit surrogate byte mem
        unfold IsHighSurrogate IsLowSurrogate at surrogate
        exact isPlainByte_of_mem_encode unit.toNat_lt (by omega) (by omega) (by omega) mem
      rw [escapeUnits, if_pos pair, cesu8_cons, cesu8_cons, List.append_assoc, List.append_assoc,
        parseStringLoop_plain (copied first (.inl pair.1)),
        parseStringLoop_plain (copied second (.inr pair.2)), ih]
      simp
  | case4 first second others noPair ih =>
      rcases @parseStringLoop_escapeUnit builder unappended
        (cesu8 (escapeUnits (second :: others)) ++ 0x22 :: rest) first with
        ⟨holds, copied, same, step⟩
      rw [escapeUnits, if_neg noPair, cesu8_append, List.append_assoc, step, ih, same, cesu8_cons]
      simp

end Strings

end Cmsframe
