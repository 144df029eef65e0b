import Cmsframe.Json.Lexemes

/-!
# What the parser accepts

Whatever the parser returns has a derivation in the grammar, and where it stops without a
value no assertion has failed. Each recursive call needs less fuel than the text that is left
has characters, twice over: a value costs one call and each turn of a loop one more.
-/

namespace Cmsframe

open Unicode (CodeUnit cesu8 cesu8_cons cesu8_append)

variable {numbers : NumberConversion} {fuel : ℕ} {start : List CodeUnit}

/-- The value is `ECMA_VALUE_EMPTY`, and not because of a string. -/
def Refused (result : Except ParseStop (Json × List UInt8)) : Prop :=
  ∃ token, result = .error (.empty token) ∧ ∀ bytes, token ≠ .string bytes

/-- A value of the grammar is read from the front of `start`, or none is. -/
def ValueRead (numbers : NumberConversion) (start : List CodeUnit)
    (result : Except ParseStop (Json × List UInt8)) : Prop :=
  Refused result ∨ ∃ before text rest json, start = before ++ text ++ rest ∧ AreSpaces before ∧
    JsonText IsScannedNumeral numbers text (.value json) ∧ (text = [0x2D] → rest ≠ []) ∧
    result = .ok (json, cesu8 rest)

/-- The rest of an array, behind `items`. -/
def ItemsRead (numbers : NumberConversion) (items : List Json) (start : List CodeUnit)
    (result : Except ParseStop (Json × List UInt8)) : Prop :=
  Refused result ∨ ∃ text rest more, start = text ++ 0x5D :: rest ∧
    JsonText IsScannedNumeral numbers text (.items more) ∧
    result = .ok (.array (items ++ more), cesu8 rest)

/-- The rest of an object, behind `members`. -/
def MembersRead (numbers : NumberConversion) (members : List (List CodeUnit × Json))
    (start : List CodeUnit) (result : Except ParseStop (Json × List UInt8)) : Prop :=
  Refused result ∨ ∃ text rest more, start = text ++ 0x7D :: rest ∧
    JsonText IsScannedNumeral numbers text (.members more) ∧
    result = .ok (.object (more.foldl (fun object member =>
      defineValueProperty object member.1 member.2) members), cesu8 rest)

/-- What the three functions do with the token at `start`. -/
structure ParsesSoundly (numbers : NumberConversion) (fuel : ℕ) : Prop where
  value : ∀ {start token next}, Scanned numbers true start token next → 2 * start.length < fuel →
    ValueRead numbers start (ecmaBuiltinJsonParseValue numbers fuel token next)
  items : ∀ {start token next} items, Scanned numbers true start token next →
    2 * start.length + 1 < fuel →
    ItemsRead numbers items start (parseItems numbers fuel items token next)
  members : ∀ {start token next} members, Scanned numbers true start token next →
    2 * start.length + 1 < fuel →
    MembersRead numbers members start (parseMembers numbers fuel members token next)

theorem Scanned.not_string {token : JsonToken} {next : List UInt8}
    (scanned : Scanned numbers false start token next) : ∀ bytes, token ≠ .string bytes := by
  rintro bytes rfl
  cases scanned with
  | lexeme _ _ _ allowed _ => exact absurd (allowed bytes rfl) (by decide)

/-- The token behind an item or a member, or in front of a value. -/
theorem Scanned.single {parseString : Bool} {token : JsonToken} {next : List UInt8} {unit : CodeUnit}
    (scanned : Scanned numbers parseString start token next)
    (isSingle : (unit, token) ∈ [(0x7B, JsonToken.leftBrace), (0x7D, .rightBrace),
      (0x5B, .leftSquare), (0x5D, .rightSquare), (0x2C, .comma), (0x3A, .colon)]) :
    ∃ before rest, start = before ++ unit :: rest ∧ AreSpaces before ∧ next = cesu8 rest := by
  cases scanned with
  | endOfStream => simp at isSingle
  | invalid => simp at isSingle
  | @lexeme before body rest _ split areSpaces isLexeme =>
      refine ⟨before, rest, ?_, areSpaces, rfl⟩
      cases isLexeme with
      | leftBrace =>
          obtain rfl : unit = 0x7B := by simpa using isSingle
          simpa using split
      | rightBrace =>
          obtain rfl : unit = 0x7D := by simpa using isSingle
          simpa using split
      | leftSquare =>
          obtain rfl : unit = 0x5B := by simpa using isSingle
          simpa using split
      | rightSquare =>
          obtain rfl : unit = 0x5D := by simpa using isSingle
          simpa using split
      | comma =>
          obtain rfl : unit = 0x2C := by simpa using isSingle
          simpa using split
      | colon =>
          obtain rfl : unit = 0x3A := by simpa using isSingle
          simpa using split
      | null => simp at isSingle
      | true => simp at isSingle
      | false => simp at isSingle
      | number => simp at isSingle
      | string => simp at isSingle

theorem parseValue_notRightBrace {token : JsonToken} {rest next : List UInt8}
    (scanned : ecmaBuiltinJsonParseNextToken numbers rest true = .ok (token, next))
    (notEmpty : token ≠ .rightBrace) :
    ecmaBuiltinJsonParseValue numbers (fuel + 1) .leftBrace rest =
      parseMembers numbers fuel [] token next := by
  simp only [ecmaBuiltinJsonParseValue, scanned]
  cases token with
  | rightBrace => exact absurd rfl notEmpty
  | _ => rfl

/-- A value, when the loops are sound with less fuel. -/
theorem ParsesSoundly.value_step (ih : ParsesSoundly numbers fuel) {token : JsonToken}
    {next : List UInt8} (scanned : Scanned numbers true start token next)
    (enough : 2 * start.length < fuel + 1) :
    ValueRead numbers start (ecmaBuiltinJsonParseValue numbers (fuel + 1) token next) := by
  cases scanned with
  | endOfStream => exact .inl ⟨.endOfStream, rfl, by simp⟩
  | invalid => exact .inl ⟨.invalid, rfl, by simp⟩
  | @lexeme before body rest _ split areSpaces isLexeme _ notBare =>
      cases isLexeme with
      | rightBrace => exact .inl ⟨.rightBrace, rfl, by simp⟩
      | rightSquare => exact .inl ⟨.rightSquare, rfl, by simp⟩
      | comma => exact .inl ⟨.comma, rfl, by simp⟩
      | colon => exact .inl ⟨.colon, rfl, by simp⟩
      | null => exact .inr ⟨before, _, rest, .null, split, areSpaces, .null, notBare, rfl⟩
      | true => exact .inr ⟨before, _, rest, .boolean true, split, areSpaces, .true, notBare, rfl⟩
      | false =>
          exact .inr ⟨before, _, rest, .boolean false, split, areSpaces, .false, notBare, rfl⟩
      | number isNumeral =>
          exact .inr ⟨before, _, rest, _, split, areSpaces, .number isNumeral, notBare, rfl⟩
      | @string text units isString =>
          refine .inr ⟨before, _, rest, .string units, split, areSpaces, .string isString, notBare, ?_⟩
          rw [ecmaBuiltinJsonParseValue, builderUnits_cesu8]
          rfl
      | leftSquare =>
          rcases @nextToken_sound numbers true rest with ⟨token, next, read, scanned⟩
          have shorter : 2 * rest.length + 1 < fuel := by
            simp only [split, List.length_append, List.length_singleton] at enough
            omega
          by_cases isEmpty : token = .rightSquare
          · subst isEmpty
            rcases @Scanned.single _ _ _ _ _ 0x5D scanned (by simp) with
              ⟨spaces, behind, rfl, areInner, rfl⟩
            right
            refine ⟨before, 0x5B :: (spaces ++ [0x5D]), behind, .array [], by simp [split], areSpaces,
              .emptyArray areInner, by simp, ?_⟩
            simp only [ecmaBuiltinJsonParseValue, read]
            rfl
          · rw [parseValue_leftSquare read isEmpty]
            rcases ih.items [] scanned shorter with
              refused | ⟨text, behind, more, rfl, derivation, result⟩
            · exact .inl refused
            · exact .inr ⟨before, 0x5B :: (text ++ [0x5D]), behind, .array more, by simp [split],
                areSpaces, .array derivation, by simp, result⟩
      | leftBrace =>
          rcases @nextToken_sound numbers true rest with ⟨token, next, read, scanned⟩
          have shorter : 2 * rest.length + 1 < fuel := by
            simp only [split, List.length_append, List.length_singleton] at enough
            omega
          by_cases isEmpty : token = .rightBrace
          · subst isEmpty
            rcases @Scanned.single _ _ _ _ _ 0x7D scanned (by simp) with
              ⟨spaces, behind, rfl, areInner, rfl⟩
            right
            refine ⟨before, 0x7B :: (spaces ++ [0x7D]), behind, .object [], by simp [split],
              areSpaces, .emptyObject areInner, by simp, ?_⟩
            simp only [ecmaBuiltinJsonParseValue, read]
            rfl
          · rw [parseValue_notRightBrace read isEmpty]
            rcases ih.members [] scanned shorter with
              refused | ⟨text, behind, more, rfl, derivation, result⟩
            · exact .inl refused
            · rw [foldl_defineValueProperty] at result
              exact .inr ⟨before, 0x7B :: (text ++ [0x7D]), behind, objectOf more, by simp [split],
                  areSpaces, .object derivation, by simp, result⟩

section Refusals

variable {token following : JsonToken} {next behind : List UInt8} {json : Json}

theorem parseItems_refused {items : List Json}
    (refused : Refused (ecmaBuiltinJsonParseValue numbers fuel token next)) :
    Refused (parseItems numbers (fuel + 1) items token next) := by
  rcases refused with ⟨stopped, result, noString⟩
  simp only [parseItems, result]
  cases stopped with
  | string bytes => exact absurd rfl (noString bytes)
  | _ => exact ⟨_, rfl, by simp⟩

theorem parseItems_unclosed {items : List Json}
    (parsed : ecmaBuiltinJsonParseValue numbers fuel token next = .ok (json, cesu8 start))
    (read : ecmaBuiltinJsonParseNextToken numbers (cesu8 start) false = .ok (following, behind))
    (scanned : Scanned numbers false start following behind) (notEnd : following ≠ .rightSquare)
    (notComma : following ≠ .comma) :
    Refused (parseItems numbers (fuel + 1) items token next) := by
  simp only [parseItems, parsed, read, parse_ok_bind]
  cases following with
  | rightSquare => exact absurd rfl notEnd
  | comma => exact absurd rfl notComma
  | string bytes => exact absurd rfl (scanned.not_string bytes)
  | _ => exact ⟨_, rfl, by simp⟩

theorem parseMembers_noName {members : List (List CodeUnit × Json)}
    (noString : ∀ bytes, token ≠ .string bytes) :
    Refused (parseMembers numbers (fuel + 1) members token next) := by
  simp only [parseMembers]
  cases token with
  | string bytes => exact absurd rfl (noString bytes)
  | _ => exact ⟨_, rfl, by simp⟩

theorem parseMembers_noColon {members : List (List CodeUnit × Json)} {name : List UInt8}
    (read : ecmaBuiltinJsonParseNextToken numbers (cesu8 start) false = .ok (following, behind))
    (scanned : Scanned numbers false start following behind) (notColon : following ≠ .colon) :
    Refused (parseMembers numbers (fuel + 1) members (.string name) (cesu8 start)) := by
  simp only [parseMembers, read, parse_ok_bind]
  cases following with
  | colon => exact absurd rfl notColon
  | string bytes => exact absurd rfl (scanned.not_string bytes)
  | _ => exact ⟨_, rfl, by simp⟩

variable {members : List (List CodeUnit × Json)} {name afterColon : List UInt8}

theorem parseMembers_refused
    (colon : ecmaBuiltinJsonParseNextToken numbers next false = .ok (.colon, afterColon))
    (read : ecmaBuiltinJsonParseNextToken numbers afterColon true = .ok (token, behind))
    (refused : Refused (ecmaBuiltinJsonParseValue numbers fuel token behind)) :
    Refused (parseMembers numbers (fuel + 1) members (.string name) next) := by
  rcases refused with ⟨stopped, result, noString⟩
  simp only [parseMembers, colon, parse_ok_bind, read, result]
  exact ⟨stopped, rfl, noString⟩

theorem parseMembers_unclosed {further : List UInt8}
    (colon : ecmaBuiltinJsonParseNextToken numbers next false = .ok (.colon, afterColon))
    (read : ecmaBuiltinJsonParseNextToken numbers afterColon true = .ok (token, behind))
    (parsed : ecmaBuiltinJsonParseValue numbers fuel token behind = .ok (json, cesu8 start))
    (readNext : ecmaBuiltinJsonParseNextToken numbers (cesu8 start) false =
      .ok (following, further))
    (scanned : Scanned numbers false start following further) (notEnd : following ≠ .rightBrace)
    (notComma : following ≠ .comma) :
    Refused (parseMembers numbers (fuel + 1) members (.string name) next) := by
  simp only [parseMembers, colon, parse_ok_bind, read, parsed, readNext]
  cases following with
  | rightBrace => exact absurd rfl notEnd
  | comma => exact absurd rfl notComma
  | string bytes => exact absurd rfl (scanned.not_string bytes)
  | _ => exact ⟨_, rfl, by simp⟩

end Refusals

/-- A turn of the loop over items. -/
theorem ParsesSoundly.items_step (ih : ParsesSoundly numbers fuel) (items : List Json)
    {token : JsonToken} {next : List UInt8} (scanned : Scanned numbers true start token next)
    (enough : 2 * start.length + 1 < fuel + 1) :
    ItemsRead numbers items start (parseItems numbers (fuel + 1) items token next) := by
  rcases ih.value scanned (by omega) with
    refused | ⟨before, text, rest, json, rfl, areBefore, isItem, _, parsed⟩
  · exact .inl (parseItems_refused refused)
  · rcases @nextToken_sound numbers false rest with ⟨following, behind, read, scanned⟩
    by_cases isEnd : following = .rightSquare
    · subst isEnd
      rcases @Scanned.single _ _ _ _ _ 0x5D scanned (by simp) with
        ⟨after, others, rfl, areAfter, rfl⟩
      exact .inr ⟨before ++ text ++ after, others, [json], by simp,
        .lastItem areBefore areAfter isItem, parseItems_close parsed read⟩
    · by_cases isComma : following = .comma
      · subst isComma
        rcases @Scanned.single _ _ _ _ _ 0x2C scanned (by simp) with
          ⟨after, others, rfl, areAfter, rfl⟩
        rcases @nextToken_sound numbers true others with ⟨first, further, readNext, scannedNext⟩
        have shorter : 2 * others.length + 1 < fuel := by
          simp only [List.length_append, List.length_cons] at enough
          omega
        rw [parseItems_comma parsed read readNext]
        rcases ih.items (items ++ [json]) scannedNext shorter with
          refused | ⟨text', rest, more, rfl, derivation, result⟩
        · exact .inl refused
        · refine .inr ⟨before ++ text ++ after ++ 0x2C :: text', rest, json :: more, by simp,
            .nextItem areBefore areAfter isItem derivation, ?_⟩
          rw [result, List.append_assoc, List.singleton_append]
      · exact .inl (parseItems_unclosed parsed read scanned isEnd isComma)

/-- The name of a member. -/
theorem Scanned.name {name : List UInt8} {next : List UInt8}
    (scanned : Scanned numbers true start (.string name) next) :
    ∃ before text key rest, start = before ++ quoted text ++ rest ∧ AreSpaces before ∧
      StringText text key ∧ name = cesu8 key ∧ next = cesu8 rest := by
  cases scanned with
  | @lexeme before body rest _ split areSpaces isLexeme =>
      cases isLexeme with
      | @string text key isString =>
          exact ⟨before, text, key, rest, split, areSpaces, isString, rfl, rfl⟩

/-- A turn of the loop over members. -/
theorem ParsesSoundly.members_step (ih : ParsesSoundly numbers fuel)
    (members : List (List CodeUnit × Json)) {token : JsonToken} {next : List UInt8}
    (scanned : Scanned numbers true start token next) (enough : 2 * start.length + 1 < fuel + 1) :
    MembersRead numbers members start (parseMembers numbers (fuel + 1) members token next) := by
  by_cases noString : ∀ bytes, token ≠ .string bytes
  · exact .inl (parseMembers_noName noString)
  · obtain ⟨name, rfl⟩ : ∃ name, token = .string name := by
      simpa only [ne_eq, not_forall, not_not] using noString
    rcases scanned.name with ⟨before, text, key, rest, rfl, areBefore, isName, rfl, rfl⟩
    rcases @nextToken_sound numbers false rest with ⟨following, behind, readColon, scannedColon⟩
    by_cases isColon : following = .colon
    · subst isColon
      rcases @Scanned.single _ _ _ _ _ 0x3A scannedColon (by simp) with
        ⟨colon, rest, rfl, areColon, rfl⟩
      rcases @nextToken_sound numbers true rest with ⟨first, further, read, scanned⟩
      have shorter : 2 * rest.length + 2 < fuel := by
        simp only [List.length_append, List.length_cons] at enough
        omega
      rcases ih.value scanned (by omega) with
        refused | ⟨middle, value, rest, json, rfl, areMiddle, isValue, _, parsed⟩
      · exact .inl (parseMembers_refused readColon read refused)
      · rcases @nextToken_sound numbers false rest with ⟨following, last, readNext, scannedNext⟩
        by_cases isEnd : following = .rightBrace
        · subst isEnd
          rcases @Scanned.single _ _ _ _ _ 0x7D scannedNext (by simp) with
            ⟨after, others, rfl, areAfter, rfl⟩
          refine .inr ⟨before ++ quoted text ++ colon ++ 0x3A :: (middle ++ value ++ after), others,
            [(key, json)], by simp,
            .lastMember areBefore isName areColon areMiddle areAfter isValue, ?_⟩
          rw [parseMembers_close readColon read parsed readNext, builderUnits_cesu8]
          rfl
        · by_cases isComma : following = .comma
          · subst isComma
            rcases @Scanned.single _ _ _ _ _ 0x2C scannedNext (by simp) with
              ⟨after, others, rfl, areAfter, rfl⟩
            rcases @nextToken_sound numbers true others with ⟨first, final, readFirst, scannedFirst⟩
            have less : 2 * others.length + 1 < fuel := by
              simp only [List.length_append, List.length_cons] at shorter
              omega
            rw [parseMembers_comma readColon read parsed readNext readFirst, builderUnits_cesu8]
            rcases ih.members (defineValueProperty members key json) scannedFirst less with
              refused | ⟨text', rest, more, rfl, derivation, result⟩
            · exact .inl refused
            · exact .inr ⟨before ++ quoted text ++ colon ++
                0x3A :: (middle ++ value ++ after ++ 0x2C :: text'), rest, (key, json) :: more,
                by simp, .nextMember areBefore isName areColon areMiddle areAfter isValue derivation,
                result⟩
          · exact .inl (parseMembers_unclosed readColon read parsed readNext scannedNext isEnd isComma)
    · exact .inl (parseMembers_noColon readColon scannedColon isColon)

theorem parsesSoundly (numbers : NumberConversion) (fuel : ℕ) : ParsesSoundly numbers fuel := by
  induction fuel with
  | zero => exact ⟨fun _ enough => absurd enough (Nat.not_lt_zero _),
      fun _ _ enough => absurd enough (Nat.not_lt_zero _),
      fun _ _ enough => absurd enough (Nat.not_lt_zero _)⟩
  | succ fuel ih =>
      exact ⟨ih.value_step, fun items => ih.items_step items,
        fun members => ih.members_step members⟩

/-- The parser returns a document's value, or refuses its input. -/
theorem parseBuffer_sound (numbers : NumberConversion) (document : List CodeUnit)
    (enough : 2 * document.length < fuel) :
    ecmaBuiltinJsonParseBuffer numbers fuel (cesu8 document) = .ok none ∨
      ∃ json, ecmaBuiltinJsonParseBuffer numbers fuel (cesu8 document) = .ok (some json) ∧
        IsScannedDocument numbers document json := by
  rcases @nextToken_sound numbers true document with ⟨token, next, read, scanned⟩
  rw [ecmaBuiltinJsonParseBuffer, read, parse_ok_bind]
  rcases (parsesSoundly numbers fuel).value scanned enough with
    ⟨stopped, result, _⟩ | ⟨before, text, rest, json, rfl, areBefore, derivation, notBare, result⟩
  · left
    simp only [result]
    rfl
  · simp only [result]
    rcases @nextToken_sound numbers false rest with ⟨following, behind, readEnd, scannedEnd⟩
    rw [readEnd, parse_ok_bind]
    cases scannedEnd with
    | endOfStream areSpaces =>
        exact .inr ⟨json, rfl, ⟨before, text, rest, rfl, areBefore, areSpaces, derivation, notBare⟩⟩
    | invalid => exact .inl rfl
    | lexeme _ _ isLexeme => cases isLexeme <;> exact .inl rfl

end Cmsframe
