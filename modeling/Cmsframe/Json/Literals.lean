import Cmsframe.Json.Grammar

/-!
# String literals and the grammar

The scanner sees the CESU-8 bytes of a string. All that the grammar spells out is ASCII, so a
byte that the scanner compares belongs to a code unit of its own. The loop over a string
literal accepts the texts of the grammar.
-/

namespace Cmsframe

open Unicode (CodeUnit cesu8 cesu8_cons cesu8_nil cesu8_append asciiUnits encode)

section Bytes

variable {unit : CodeUnit} {units : List CodeUnit}

theorem encode_ascii (small : unit.toNat ≤ 0x7F) :
    encode unit.toNat = [UInt8.ofNat unit.toNat] :=
  Unicode.encode_of_le_one small

/-- A byte below 0x80 is the first byte of the unit with the same number. -/
theorem eq_unit_of_head {byte : UInt8} {others : List UInt8} (small : byte.toNat < 0x80)
    (head : cesu8 (unit :: units) = byte :: others) :
    unit = UInt16.ofNat byte.toNat ∧ others = cesu8 units := by
  have isAscii : unit.toNat ≤ 0x7F := by
    by_contra large
    rw [cesu8_cons] at head
    have mem : byte ∈ encode unit.toNat := by
      cases encoded : encode unit.toNat with
      | nil => exact absurd encoded (Unicode.encode_ne_nil _)
      | cons first rest =>
          rw [encoded] at head
          cases head
          exact List.mem_cons_self
    have above : 0x80 ≤ byte.toNat := Unicode.le_of_mem_encode (by omega) le_rfl mem
    omega
  rw [cesu8_cons, encode_ascii isAscii] at head
  simp only [List.cons_append, List.nil_append, List.cons.injEq] at head
  rcases head with ⟨rfl, rfl⟩
  have same : (UInt8.ofNat unit.toNat).toNat = unit.toNat := by
    rw [UInt8.toNat_ofNat']
    omega
  refine ⟨?_, rfl⟩
  rw [same]
  simp

/-- ASCII bytes at the beginning are the bytes of code units. -/
theorem exists_units_of_ascii {text rest : List UInt8} (ascii : ∀ byte ∈ text, byte.toNat < 0x80)
    (same : text ++ rest = cesu8 units) :
    ∃ others, units = asciiUnits text ++ others ∧ rest = cesu8 others := by
  induction text generalizing units with
  | nil => exact ⟨units, rfl, same⟩
  | cons byte text ih =>
      cases units with
      | nil => cases same
      | cons unit units =>
          rcases eq_unit_of_head (ascii byte List.mem_cons_self) same.symm with ⟨rfl, behind⟩
          rcases ih (fun other mem => ascii other (List.mem_cons_of_mem byte mem)) behind with
            ⟨others, rfl, isRest⟩
          exact ⟨others, by simp [asciiUnits], isRest⟩

theorem isSpace_of_isJsonSpace {byte : UInt8} (isSpace : isJsonSpace byte = true) :
    byte.toNat < 0x80 ∧ IsSpace (UInt16.ofNat byte.toNat) := by
  simp only [isJsonSpace, Bool.or_eq_true, decide_eq_true_eq] at isSpace
  rcases isSpace with ((rfl | rfl) | rfl) | rfl <;> decide

/-- The scanner passes over the spaces in front of a token. -/
theorem dropWhile_spaces {before : List CodeUnit} (areSpaces : AreSpaces before)
    (rest : List UInt8) :
    (cesu8 before ++ rest).dropWhile isJsonSpace = rest.dropWhile isJsonSpace := by
  apply List.dropWhile_append_of_pos
  intro byte mem
  simp only [cesu8, List.mem_flatMap] at mem
  rcases mem with ⟨unit, unitMem, byteMem⟩
  rcases areSpaces unit unitMem with rfl | rfl | rfl | rfl <;>
    rw [List.mem_singleton.mp byteMem] <;> rfl

theorem exists_spaces (units : List CodeUnit) :
    ∃ before rest, units = before ++ rest ∧ AreSpaces before ∧
      (cesu8 units).dropWhile isJsonSpace = cesu8 rest := by
  induction units with
  | nil => exact ⟨[], [], rfl, nofun, rfl⟩
  | cons unit units ih =>
      cases bytes : cesu8 (unit :: units) with
      | nil => exact ⟨[], unit :: units, rfl, nofun, by rw [bytes]; rfl⟩
      | cons byte others =>
          by_cases isSpace : isJsonSpace byte
          · rcases isSpace_of_isJsonSpace isSpace with ⟨small, isSpaceUnit⟩
            rcases eq_unit_of_head small bytes with ⟨rfl, rfl⟩
            rcases ih with ⟨before, rest, rfl, areSpaces, dropped⟩
            refine ⟨UInt16.ofNat byte.toNat :: before, rest, rfl, ?_, ?_⟩
            · intro unit mem
              rcases List.mem_cons.mp mem with rfl | mem
              · exact isSpaceUnit
              · exact areSpaces unit mem
            · rw [List.dropWhile_cons_of_pos isSpace, dropped]
          · refine ⟨[], unit :: units, rfl, nofun, ?_⟩
            rw [List.dropWhile_cons_of_neg isSpace, bytes]

end Bytes

section Strings

/-- The digits of an escape sequence, one after the other. -/
theorem isHexDigit_of_litCharIsHexDigit {digit : UInt8} (isDigit : litCharIsHexDigit digit = true) :
    digit.toNat < 0x80 ∧ IsHexDigit (UInt16.ofNat digit.toNat) (litCharHexToInt digit) := by
  have all : ∀ number : Fin 128, litCharIsHexDigit (UInt8.ofNat number.val) = true →
      0x30 ≤ number.val ∧ number.val ≤ 0x39 ∧
          litCharHexToInt (UInt8.ofNat number.val) + 0x30 = number.val ∨
        0x41 ≤ number.val ∧ number.val ≤ 0x46 ∧
          litCharHexToInt (UInt8.ofNat number.val) + 0x41 = number.val + 10 ∨
        0x61 ≤ number.val ∧ number.val ≤ 0x66 ∧
          litCharHexToInt (UInt8.ofNat number.val) + 0x61 = number.val + 10 := by decide
  have small : digit.toNat < 128 := by
    have below : digit.toNat ≤ digit.toNat ||| 0x20 := Nat.left_le_or
    simp only [litCharIsHexDigit, Bool.or_eq_true, Bool.and_eq_true, decide_eq_true_eq] at isDigit
    omega
  have single := all ⟨digit.toNat, small⟩
  simp only [UInt8.ofNat_toNat] at single
  refine ⟨small, ?_⟩
  unfold IsHexDigit
  rw [Unicode.toNat_asciiUnit]
  exact single isDigit

theorem litCharIsHexDigit_of_isHexDigit {unit : CodeUnit} {value : ℕ}
    (isDigit : IsHexDigit unit value) :
    unit.toNat < 0x80 ∧ litCharIsHexDigit (UInt8.ofNat unit.toNat) = true ∧
      litCharHexToInt (UInt8.ofNat unit.toNat) = value ∧ value < 16 := by
  have all : ∀ number : Fin 128,
      (0x30 ≤ number.val ∧ number.val ≤ 0x39 →
        litCharIsHexDigit (UInt8.ofNat number.val) = true ∧
          litCharHexToInt (UInt8.ofNat number.val) + 0x30 = number.val) ∧
      (0x41 ≤ number.val ∧ number.val ≤ 0x46 →
        litCharIsHexDigit (UInt8.ofNat number.val) = true ∧
          litCharHexToInt (UInt8.ofNat number.val) + 0x41 = number.val + 10) ∧
      (0x61 ≤ number.val ∧ number.val ≤ 0x66 →
        litCharIsHexDigit (UInt8.ofNat number.val) = true ∧
          litCharHexToInt (UInt8.ofNat number.val) + 0x61 = number.val + 10) := by decide
  have small : unit.toNat < 128 := by
    unfold IsHexDigit at isDigit
    omega
  rcases all ⟨unit.toNat, small⟩ with ⟨decimal, capital, lower⟩
  simp only at decimal capital lower
  rcases isDigit with ⟨least, most, same⟩ | ⟨least, most, same⟩ | ⟨least, most, same⟩
  · have found := decimal ⟨least, most⟩
    exact ⟨small, found.1, by omega, by omega⟩
  · have found := capital ⟨least, most⟩
    exact ⟨small, found.1, by omega, by omega⟩
  · have found := lower ⟨least, most⟩
    exact ⟨small, found.1, by omega, by omega⟩

theorem hexLookup_cons (value : ℕ) (digit : UInt8) (rest : List UInt8) :
    hexLookup value (digit :: rest) =
      if litCharIsHexDigit digit then hexLookup (value * 16 + litCharHexToInt digit) rest
      else none := by
  rw [hexLookup, Nat.shiftLeft_eq]

theorem isEscape_of_escapedByte {character byte : UInt8}
    (isEscaped : escapedByte character = some byte) :
    character.toNat < 0x80 ∧ byte.toNat < 0x80 ∧
      IsEscape [UInt16.ofNat character.toNat] (UInt16.ofNat byte.toNat) := by
  unfold escapedByte at isEscaped
  split_ifs at isEscaped with self backspace formFeed lineFeed carriageReturn tab
  · cases isEscaped
    rcases self with rfl | rfl | rfl
    · exact ⟨by decide, by decide, .quote⟩
    · exact ⟨by decide, by decide, .solidus⟩
    · exact ⟨by decide, by decide, .backslash⟩
  · cases isEscaped
    subst backspace
    exact ⟨by decide, by decide, .backspace⟩
  · cases isEscaped
    subst formFeed
    exact ⟨by decide, by decide, .formFeed⟩
  · cases isEscaped
    subst lineFeed
    exact ⟨by decide, by decide, .lineFeed⟩
  · cases isEscaped
    subst carriageReturn
    exact ⟨by decide, by decide, .carriageReturn⟩
  · cases isEscaped
    subst tab
    exact ⟨by decide, by decide, .tab⟩

/-- Four digits that are looked up. -/
theorem isEscape_of_litCharHexLookup {first second third fourth : UInt8} {value : ℕ}
    (found : litCharHexLookup [first, second, third, fourth] 4 = some value) :
    (∀ byte ∈ [first, second, third, fourth], byte.toNat < 0x80) ∧ value < 0x10000 ∧
      IsEscape (0x75 :: asciiUnits [first, second, third, fourth]) (UInt16.ofNat value) := by
  rw [litCharHexLookup, if_neg (by simp), List.take_of_length_le (by simp)] at found
  rw [hexLookup_cons, hexLookup_cons, hexLookup_cons, hexLookup_cons, hexLookup] at found
  split_ifs at found with isFirst isSecond isThird isFourth
  rcases isHexDigit_of_litCharIsHexDigit isFirst with ⟨firstSmall, isFirst⟩
  rcases isHexDigit_of_litCharIsHexDigit isSecond with ⟨secondSmall, isSecond⟩
  rcases isHexDigit_of_litCharIsHexDigit isThird with ⟨thirdSmall, isThird⟩
  rcases isHexDigit_of_litCharIsHexDigit isFourth with ⟨fourthSmall, isFourth⟩
  simp only [Option.some.injEq, Nat.zero_mul, Nat.zero_add] at found
  refine ⟨?_, ?_, ?_⟩
  · simp [firstSmall, secondSmall, thirdSmall, fourthSmall]
  · have below : ∀ {unit : CodeUnit} {digit : ℕ}, IsHexDigit unit digit → digit < 16 :=
      fun isDigit => (litCharIsHexDigit_of_isHexDigit isDigit).2.2.2
    have a := below isFirst
    have b := below isSecond
    have c := below isThird
    have d := below isFourth
    omega
  · rw [← found]
    exact .unicode isFirst isSecond isThird isFourth

variable {builder unappended : List UInt8}

/-- A backslash ends the string, or begins an escape sequence. -/
theorem parseStringLoop_backslash (others : List CodeUnit) :
    parseStringLoop builder unappended (0x5C :: cesu8 others) = .ok none ∨
      ∃ letters unit rest, others = letters ++ rest ∧ IsEscape letters unit ∧
        parseStringLoop builder unappended (0x5C :: cesu8 others) =
          parseStringLoop (builder ++ unappended ++ encode unit.toNat) [] (cesu8 rest) := by
  have control : ¬(0x5C : UInt8).toNat ≤ 0x1F := by decide
  have four : ¬0xF0 ≤ (0x5C : UInt8).toNat := by decide
  have quote : (0x5C : UInt8) ≠ 0x22 := by decide
  cases others with
  | nil =>
      left
      rw [cesu8_nil, parseStringLoop.eq_def]
      simp only [if_neg control, if_neg quote, if_neg four, if_true]
      rfl
  | cons next others =>
      cases bytes : cesu8 (next :: others) with
      | nil =>
          left
          rw [parseStringLoop.eq_def]
          simp only [if_neg control, if_neg quote, if_neg four, if_true]
          rfl
      | cons character behind =>
          cases isEscaped : escapedByte character with
          | some byte =>
              right
              rcases isEscape_of_escapedByte isEscaped with ⟨small, byteSmall, isEscape⟩
              rcases eq_unit_of_head small bytes with ⟨rfl, rfl⟩
              refine ⟨[UInt16.ofNat character.toNat], UInt16.ofNat byte.toNat, others, rfl,
                isEscape, ?_⟩
              rw [parseStringLoop_escaped isEscaped, Unicode.toNat_asciiUnit,
                Unicode.encode_of_le_one (by omega), UInt8.ofNat_toNat]
          | none =>
              by_cases isUnicode : character = 0x75
              · subst isUnicode
                rcases eq_unit_of_head (by decide) bytes with ⟨rfl, rfl⟩
                rw [parseStringLoop.eq_def]
                simp only [if_neg control, if_neg quote, if_neg four, if_true, isEscaped]
                split
                · next first second third fourth rest same =>
                    cases found : litCharHexLookup [first, second, third, fourth] 4 with
                    | none => exact .inl rfl
                    | some value =>
                        right
                        rcases isEscape_of_litCharHexLookup found with ⟨ascii, bound, isEscape⟩
                        rcases exists_units_of_ascii ascii same.symm with ⟨rest, rfl, rfl⟩
                        refine ⟨0x75 :: asciiUnits [first, second, third, fourth],
                          UInt16.ofNat value, rest, rfl, isEscape, ?_⟩
                        have toNat : (UInt16.ofNat value).toNat = value := by
                          rw [UInt16.toNat_ofNat']
                          omega
                        simp only [litCodePointToCesu8Bytes_unit bound, toNat]
                · exact .inl rfl
              · left
                rw [parseStringLoop.eq_def]
                simp only [if_neg control, if_neg quote, if_neg four, if_true, isEscaped,
                  if_neg isUnicode]
                rfl

/-- The loop stops without a string, or behind a text of the grammar. No assertion fails. -/
theorem parseStringLoop_sound (bound : ℕ) {text : List CodeUnit} (bounded : text.length ≤ bound) :
    parseStringLoop builder unappended (cesu8 text) = .ok none ∨
      ∃ body units rest, text = body ++ 0x22 :: rest ∧ StringText body units ∧
        parseStringLoop builder unappended (cesu8 text) =
          .ok (some (builder ++ unappended ++ cesu8 units, cesu8 rest)) := by
  induction bound generalizing text builder unappended with
  | zero =>
      rw [List.length_eq_zero_iff.mp (Nat.le_zero.mp bounded)]
      exact .inl rfl
  | succ bound ih =>
      cases text with
      | nil => exact .inl rfl
      | cons unit others =>
          rw [List.length_cons] at bounded
          by_cases quote : unit = 0x22
          · subst quote
            right
            refine ⟨[], [], others, rfl, .nil, ?_⟩
            rw [cesu8_nil, List.append_nil]
            exact parseStringLoop_end (cesu8 others)
          · by_cases backslash : unit = 0x5C
            · subst backslash
              change parseStringLoop _ _ (0x5C :: cesu8 others) = _ ∨ _
              rcases @parseStringLoop_backslash builder unappended others with
                invalid | ⟨letters, unit, rest, rfl, isEscape, step⟩
              · exact .inl invalid
              · have shorter : rest.length ≤ bound := by
                  rw [List.length_append] at bounded
                  omega
                rcases @ih (builder ++ unappended ++ encode unit.toNat) [] rest shorter with
                  invalid | ⟨body, units, behind, rfl, isString, scanned⟩
                · exact .inl (step.trans invalid)
                · right
                  refine ⟨0x5C :: (letters ++ body), unit :: units, behind, by simp,
                    .escape isEscape isString, ?_⟩
                  change parseStringLoop _ _ (0x5C :: cesu8 (letters ++ (body ++ _))) = _
                  rw [step, scanned, cesu8_cons]
                  simp
            · by_cases control : unit.toNat ≤ 0x1F
              · left
                have first : cesu8 (unit :: others) = UInt8.ofNat unit.toNat :: cesu8 others := by
                  rw [cesu8_cons, encode_ascii (by omega)]
                  rfl
                have small : (UInt8.ofNat unit.toNat).toNat ≤ 0x1F := by
                  rw [UInt8.toNat_ofNat']
                  omega
                rw [first, parseStringLoop.eq_def]
                simp only [if_pos small]
                rfl
              · have copied : ∀ byte ∈ encode unit.toNat, IsPlainByte byte := by
                  intro byte mem
                  apply isPlainByte_of_mem_encode unit.toNat_lt (by omega) _ _ mem
                  · exact fun same => quote (UInt16.toNat_inj.mp same)
                  · exact fun same => backslash (UInt16.toNat_inj.mp same)
                rw [cesu8_cons, parseStringLoop_plain copied]
                rcases @ih builder (unappended ++ encode unit.toNat) others (by omega) with
                  invalid | ⟨body, units, rest, rfl, isString, scanned⟩
                · exact .inl invalid
                · right
                  refine ⟨unit :: body, unit :: units, rest, rfl,
                    .plain (by omega) quote backslash isString, ?_⟩
                  rw [scanned, cesu8_cons]
                  simp

variable {tail : List UInt8}

theorem parseStringLoop_isEscape {letters : List CodeUnit} {unit : CodeUnit}
    (isEscape : IsEscape letters unit) :
    parseStringLoop builder unappended (0x5C :: (cesu8 letters ++ tail)) =
      parseStringLoop (builder ++ unappended ++ encode unit.toNat) [] tail := by
  cases isEscape with
  | quote => exact parseStringLoop_escaped rfl
  | solidus => exact parseStringLoop_escaped rfl
  | backslash => exact parseStringLoop_escaped rfl
  | backspace => exact parseStringLoop_escaped rfl
  | formFeed => exact parseStringLoop_escaped rfl
  | lineFeed => exact parseStringLoop_escaped rfl
  | carriageReturn => exact parseStringLoop_escaped rfl
  | tab => exact parseStringLoop_escaped rfl
  | @unicode first second third fourth a b c d isFirst isSecond isThird isFourth =>
      rcases litCharIsHexDigit_of_isHexDigit isFirst with ⟨firstSmall, isFirst, firstValue, _⟩
      rcases litCharIsHexDigit_of_isHexDigit isSecond with ⟨secondSmall, isSecond, secondValue, _⟩
      rcases litCharIsHexDigit_of_isHexDigit isThird with ⟨thirdSmall, isThird, thirdValue, _⟩
      rcases litCharIsHexDigit_of_isHexDigit isFourth with ⟨fourthSmall, isFourth, fourthValue, _⟩
      have found : litCharHexLookup [UInt8.ofNat first.toNat, UInt8.ofNat second.toNat,
          UInt8.ofNat third.toNat, UInt8.ofNat fourth.toNat] 4 =
            some (((a * 16 + b) * 16 + c) * 16 + d) := by
        rw [litCharHexLookup, if_neg (by simp), List.take_of_length_le (by simp)]
        rw [hexLookup_cons, if_pos isFirst, hexLookup_cons, if_pos isSecond, hexLookup_cons,
          if_pos isThird, hexLookup_cons, if_pos isFourth, hexLookup, firstValue, secondValue,
          thirdValue, fourthValue, Nat.zero_mul, Nat.zero_add]
      have bound : ((a * 16 + b) * 16 + c) * 16 + d < 0x10000 := by omega
      have toNat : (UInt16.ofNat (((a * 16 + b) * 16 + c) * 16 + d)).toNat =
          ((a * 16 + b) * 16 + c) * 16 + d := by
        rw [UInt16.toNat_ofNat']
        omega
      have control : ¬(0x5C : UInt8).toNat ≤ 0x1F := by decide
      have four : ¬0xF0 ≤ (0x5C : UInt8).toNat := by decide
      have quote : (0x5C : UInt8) ≠ 0x22 := by decide
      have notByte : escapedByte 0x75 = none := by decide
      have letters : cesu8 [0x75, first, second, third, fourth] = [0x75, UInt8.ofNat first.toNat,
          UInt8.ofNat second.toNat, UInt8.ofNat third.toNat, UInt8.ofNat fourth.toNat] := by
        simp only [cesu8_cons, cesu8_nil, encode_ascii (Nat.le_of_lt_succ firstSmall),
          encode_ascii (Nat.le_of_lt_succ secondSmall), encode_ascii (Nat.le_of_lt_succ thirdSmall),
          encode_ascii (Nat.le_of_lt_succ fourthSmall)]
        rfl
      rw [letters, parseStringLoop.eq_def]
      simp only [if_neg control, if_neg quote, if_neg four, if_true, notByte, List.cons_append,
        List.nil_append, found, litCodePointToCesu8Bytes_unit bound, toNat]

/-- Every text of the grammar is read up to the quote behind it. -/
theorem parseStringLoop_complete {text units : List CodeUnit} (isString : StringText text units)
    (rest : List UInt8) :
    parseStringLoop builder unappended (cesu8 text ++ 0x22 :: rest) =
      .ok (some (builder ++ unappended ++ cesu8 units, rest)) := by
  induction isString generalizing builder unappended with
  | nil => rw [cesu8_nil, List.nil_append, List.append_nil, parseStringLoop_end]
  | @plain unit text units notControl notQuote notBackslash _ ih =>
      have copied : ∀ byte ∈ encode unit.toNat, IsPlainByte byte := by
        intro byte mem
        apply isPlainByte_of_mem_encode unit.toNat_lt notControl _ _ mem
        · exact fun same => notQuote (UInt16.toNat_inj.mp same)
        · exact fun same => notBackslash (UInt16.toNat_inj.mp same)
      rw [cesu8_cons, List.append_assoc, parseStringLoop_plain copied, ih, cesu8_cons]
      simp
  | @escape unit letters text units isEscape _ ih =>
      have first : cesu8 (0x5C :: (letters ++ text)) ++ 0x22 :: rest =
          0x5C :: (cesu8 letters ++ (cesu8 text ++ 0x22 :: rest)) := by
        rw [cesu8_cons, cesu8_append, List.append_assoc, List.append_assoc]
        rfl
      rw [first, parseStringLoop_isEscape isEscape, ih, cesu8_cons]
      simp

end Strings

end Cmsframe
