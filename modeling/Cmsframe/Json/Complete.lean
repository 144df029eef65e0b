import Cmsframe.Json.Sound

/-!
# What the parser has to accept

Every derivation of the grammar is followed by the parser, whatever stands behind the text.
With the other direction this says which inputs are accepted, and as what.
-/

namespace Cmsframe

open Unicode (CodeUnit cesu8 cesu8_cons cesu8_nil cesu8_append asciiUnits)

section Phrases

variable {numbers : NumberConversion} {before after : List CodeUnit} {rest : List UInt8}

theorem EndsValue.spaces (areSpaces : AreSpaces after) (closed : EndsValue rest) :
    EndsValue (cesu8 after ++ rest) := by
  cases after with
  | nil => exact closed
  | cons unit others =>
      intro byte isHead
      left
      rcases areSpaces unit List.mem_cons_self with rfl | rfl | rfl | rfl <;>
        · cases isHead
          rfl

theorem endsValue_cons {byte : UInt8} (isClosing : byte = 0x2C ∨ byte = 0x5D ∨ byte = 0x7D) :
    EndsValue (byte :: rest) := by
  intro other isHead
  cases isHead
  exact .inr isClosing

/-- What the parser does with a text of the grammar. -/
def Completes (numbers : NumberConversion) (text : List CodeUnit) : JsonPhrase → Prop
  | .value json => ∀ {fuel : ℕ} {before : List CodeUnit} {rest : List UInt8},
      text.length ≤ fuel → AreSpaces before → EndsValue rest → (text = [0x2D] → rest ≠ []) →
      ∃ token next, ecmaBuiltinJsonParseNextToken numbers (cesu8 before ++ (cesu8 text ++ rest)) true =
        .ok (token, next) ∧ token ≠ .rightSquare ∧
        ecmaBuiltinJsonParseValue numbers fuel token next = .ok (json, rest)
  | .items items => ∀ {fuel : ℕ} {rest : List UInt8} (done : List Json), text.length < fuel →
      ∃ token next, ecmaBuiltinJsonParseNextToken numbers (cesu8 text ++ 0x5D :: rest) true =
        .ok (token, next) ∧ token ≠ .rightSquare ∧
        parseItems numbers fuel done token next = .ok (.array (done ++ items), rest)
  | .members members => ∀ {fuel : ℕ} {rest : List UInt8} (done : List (List CodeUnit × Json)),
      text.length < fuel →
      ∃ name next, ecmaBuiltinJsonParseNextToken numbers (cesu8 text ++ 0x7D :: rest) true =
        .ok (.string name, next) ∧
        parseMembers numbers fuel done (.string name) next =
          .ok (.object (members.foldl (fun object member =>
            defineValueProperty object member.1 member.2) done), rest)

theorem exists_succ {fuel length : ℕ} (enough : length ≤ fuel) (positive : 0 < length) :
    ∃ less, fuel = less + 1 := ⟨fuel - 1, by omega⟩

/-- A value of one token. -/
theorem completes_token {text : List CodeUnit} {json : Json} (token : JsonToken)
    (positive : 0 < text.length) (notEnd : token ≠ .rightSquare)
    (read : ∀ {before : List CodeUnit} {rest : List UInt8}, AreSpaces before → EndsValue rest →
      (text = [0x2D] → rest ≠ []) →
      ecmaBuiltinJsonParseNextToken numbers (cesu8 before ++ (cesu8 text ++ rest)) true =
        .ok (token, rest))
    (parse : ∀ fuel rest, ecmaBuiltinJsonParseValue numbers (fuel + 1) token rest =
      .ok (json, rest)) : Completes numbers text (.value json) := by
  intro fuel before rest enough areSpaces closed notBare
  rcases exists_succ enough positive with ⟨fuel, rfl⟩
  exact ⟨token, rest, read areSpaces closed notBare, notEnd, parse fuel rest⟩

theorem completes_emptyArray {spaces : List CodeUnit} (areInner : AreSpaces spaces) :
    Completes numbers (0x5B :: (spaces ++ [0x5D])) (.value (.array [])) := by
  intro fuel before rest enough areSpaces _ _
  rcases exists_succ enough (Nat.succ_pos _) with ⟨fuel, rfl⟩
  have bytes : cesu8 (0x5B :: (spaces ++ [0x5D])) ++ rest = 0x5B :: (cesu8 spaces ++ 0x5D :: rest) := by
    simp [Unicode.encode]
  have closing : ecmaBuiltinJsonParseNextToken numbers (cesu8 spaces ++ 0x5D :: rest) true =
      .ok (.rightSquare, rest) := nextToken_single rest areInner (by simp)
  rw [bytes]
  refine ⟨.leftSquare, _, nextToken_single _ areSpaces (by simp), by simp, ?_⟩
  simp only [ecmaBuiltinJsonParseValue, closing]
  rfl

theorem completes_array {text : List CodeUnit} {items : List Json}
    (elements : Completes numbers text (.items items)) :
    Completes numbers (0x5B :: (text ++ [0x5D])) (.value (.array items)) := by
  intro fuel before rest enough areSpaces _ _
  rcases exists_succ enough (Nat.succ_pos _) with ⟨fuel, rfl⟩
  have bytes : cesu8 (0x5B :: (text ++ [0x5D])) ++ rest = 0x5B :: (cesu8 text ++ 0x5D :: rest) := by
    simp [Unicode.encode]
  have less : text.length < fuel := by
    simp only [List.length_cons, List.length_append, List.length_nil] at enough
    omega
  rcases @elements fuel rest [] less with ⟨token, next, read, notEnd, parsed⟩
  rw [bytes]
  refine ⟨.leftSquare, _, nextToken_single _ areSpaces (by simp), by simp, ?_⟩
  rw [parseValue_leftSquare read notEnd]
  exact parsed

theorem completes_emptyObject {spaces : List CodeUnit} (areInner : AreSpaces spaces) :
    Completes numbers (0x7B :: (spaces ++ [0x7D])) (.value (.object [])) := by
  intro fuel before rest enough areSpaces _ _
  rcases exists_succ enough (Nat.succ_pos _) with ⟨fuel, rfl⟩
  have bytes : cesu8 (0x7B :: (spaces ++ [0x7D])) ++ rest = 0x7B :: (cesu8 spaces ++ 0x7D :: rest) := by
    simp [Unicode.encode]
  have closing : ecmaBuiltinJsonParseNextToken numbers (cesu8 spaces ++ 0x7D :: rest) true =
      .ok (.rightBrace, rest) := nextToken_single rest areInner (by simp)
  rw [bytes]
  refine ⟨.leftBrace, _, nextToken_single _ areSpaces (by simp), by simp, ?_⟩
  simp only [ecmaBuiltinJsonParseValue, closing]
  rfl

theorem completes_object {text : List CodeUnit} {members : List (List CodeUnit × Json)}
    (elements : Completes numbers text (.members members)) :
    Completes numbers (0x7B :: (text ++ [0x7D])) (.value (objectOf members)) := by
  intro fuel before rest enough areSpaces _ _
  rcases exists_succ enough (Nat.succ_pos _) with ⟨fuel, rfl⟩
  have bytes : cesu8 (0x7B :: (text ++ [0x7D])) ++ rest = 0x7B :: (cesu8 text ++ 0x7D :: rest) := by
    simp [Unicode.encode]
  have less : text.length < fuel := by
    simp only [List.length_cons, List.length_append, List.length_nil] at enough
    omega
  rcases @elements fuel rest [] less with ⟨name, next, read, parsed⟩
  rw [bytes]
  refine ⟨.leftBrace, _, nextToken_single _ areSpaces (by simp), by simp, ?_⟩
  rw [parseValue_notRightBrace read (by simp), parsed, foldl_defineValueProperty]
  rfl

section Elements

variable {text others : List CodeUnit} {json : Json} {items : List Json}

theorem completes_lastItem (areBefore : AreSpaces before) (areAfter : AreSpaces after)
    (item : Completes numbers text (.value json)) :
    Completes numbers (before ++ text ++ after) (.items [json]) := by
  intro fuel rest done enough
  rcases exists_succ enough (Nat.succ_pos _) with ⟨fuel, rfl⟩
  have less : text.length ≤ fuel := by
    simp only [List.length_append] at enough
    omega
  have bytes : cesu8 (before ++ text ++ after) ++ 0x5D :: rest =
      cesu8 before ++ (cesu8 text ++ (cesu8 after ++ 0x5D :: rest)) := by simp
  rcases item less areBefore (.spaces areAfter (endsValue_cons (.inr (.inl rfl)))) (by simp) with
    ⟨token, next, read, notEnd, parsed⟩
  rw [bytes]
  exact ⟨token, next, read, notEnd,
    parseItems_close parsed (nextToken_single rest areAfter (by simp))⟩

theorem completes_nextItem (areBefore : AreSpaces before) (areAfter : AreSpaces after)
    (item : Completes numbers text (.value json)) (more : Completes numbers others (.items items)) :
    Completes numbers (before ++ text ++ after ++ 0x2C :: others) (.items (json :: items)) := by
  intro fuel rest done enough
  rcases exists_succ enough (Nat.succ_pos _) with ⟨fuel, rfl⟩
  simp only [List.length_append, List.length_cons] at enough
  have bytes : cesu8 (before ++ text ++ after ++ 0x2C :: others) ++ 0x5D :: rest =
      cesu8 before ++ (cesu8 text ++ (cesu8 after ++ 0x2C :: (cesu8 others ++ 0x5D :: rest))) := by
    simp [Unicode.encode]
  have closed : EndsValue (cesu8 after ++ 0x2C :: (cesu8 others ++ 0x5D :: rest)) :=
    .spaces areAfter (endsValue_cons (.inl rfl))
  rcases @item fuel before _ (by omega) areBefore closed (by simp) with ⟨token, next, read, notEnd, parsed⟩
  rcases @more fuel rest (done ++ [json]) (by omega) with
    ⟨first, further, readNext, _, parsedRest⟩
  rw [bytes]
  refine ⟨token, next, read, notEnd, ?_⟩
  rw [parseItems_comma parsed (nextToken_single _ areAfter (by simp)) readNext, parsedRest,
    List.append_assoc, List.singleton_append]

variable {name key colon middle : List CodeUnit} {members : List (List CodeUnit × Json)}

theorem completes_lastMember (areBefore : AreSpaces before) (isName : StringText name key)
    (areColon : AreSpaces colon) (areMiddle : AreSpaces middle) (areAfter : AreSpaces after)
    (value : Completes numbers text (.value json)) :
    Completes numbers (before ++ quoted name ++ colon ++ 0x3A :: (middle ++ text ++ after))
      (.members [(key, json)]) := by
  intro fuel rest done enough
  rcases exists_succ enough (Nat.succ_pos _) with ⟨fuel, rfl⟩
  simp only [List.length_append, List.length_cons] at enough
  have bytes : cesu8 (before ++ quoted name ++ colon ++ 0x3A :: (middle ++ text ++ after)) ++
      0x7D :: rest = cesu8 before ++ (cesu8 (quoted name) ++ (cesu8 colon ++
        0x3A :: (cesu8 middle ++ (cesu8 text ++ (cesu8 after ++ 0x7D :: rest))))) := by
    simp [Unicode.encode]
  have closed : EndsValue (cesu8 after ++ 0x7D :: rest) :=
    .spaces areAfter (endsValue_cons (.inr (.inr rfl)))
  rcases @value fuel middle _ (by omega) areMiddle closed (by simp) with
    ⟨token, next, read, _, parsed⟩
  rw [bytes]
  refine ⟨_, _, nextToken_quoted _ areBefore isName, ?_⟩
  rw [parseMembers_close (nextToken_single _ areColon (by simp)) read parsed
    (nextToken_single rest areAfter (by simp)), builderUnits_cesu8]
  rfl

theorem completes_nextMember (areBefore : AreSpaces before) (isName : StringText name key)
    (areColon : AreSpaces colon) (areMiddle : AreSpaces middle) (areAfter : AreSpaces after)
    (value : Completes numbers text (.value json))
    (more : Completes numbers others (.members members)) :
    Completes numbers
      (before ++ quoted name ++ colon ++ 0x3A :: (middle ++ text ++ after ++ 0x2C :: others))
      (.members ((key, json) :: members)) := by
  intro fuel rest done enough
  rcases exists_succ enough (Nat.succ_pos _) with ⟨fuel, rfl⟩
  simp only [List.length_append, List.length_cons] at enough
  have bytes :
      cesu8 (before ++ quoted name ++ colon ++ 0x3A :: (middle ++ text ++ after ++ 0x2C :: others)) ++
        0x7D :: rest = cesu8 before ++ (cesu8 (quoted name) ++ (cesu8 colon ++
          0x3A :: (cesu8 middle ++ (cesu8 text ++ (cesu8 after ++
            0x2C :: (cesu8 others ++ 0x7D :: rest)))))) := by
    simp [Unicode.encode]
  have closed : EndsValue (cesu8 after ++ 0x2C :: (cesu8 others ++ 0x7D :: rest)) :=
    .spaces areAfter (endsValue_cons (.inl rfl))
  rcases @value fuel middle _ (by omega) areMiddle closed (by simp) with
    ⟨token, next, read, _, parsed⟩
  rcases @more fuel rest (defineValueProperty done key json) (by omega) with
    ⟨first, further, readNext, parsedRest⟩
  rw [bytes]
  refine ⟨_, _, nextToken_quoted _ areBefore isName, ?_⟩
  rw [parseMembers_comma (nextToken_single _ areColon (by simp)) read parsed
    (nextToken_single _ areAfter (by simp)) readNext, builderUnits_cesu8, parsedRest]
  rfl

end Elements

/-- The parser follows every derivation, production by production. -/
theorem JsonText.completes {text : List CodeUnit} {phrase : JsonPhrase}
    (derivation : JsonText IsScannedNumeral numbers text phrase) :
    Completes numbers text phrase := by
  induction derivation with
  | null =>
      exact completes_token .null (by decide) (by simp)
        (fun areSpaces _ _ => (nextToken_keyword _ areSpaces).1) (fun _ _ => rfl)
  | true =>
      exact completes_token .true (by decide) (by simp)
        (fun areSpaces _ _ => (nextToken_keyword _ areSpaces).2.1) (fun _ _ => rfl)
  | false =>
      exact completes_token .false (by decide) (by simp)
        (fun areSpaces _ _ => (nextToken_keyword _ areSpaces).2.2) (fun _ _ => rfl)
  | @number bytes isNumeral =>
      refine completes_token (.number (numbers.fromDecimal bytes)) ?_ (by simp) ?_ (fun _ _ => rfl)
      · rcases isNumeral.exists_first with ⟨first, others, rfl, _⟩
        exact Nat.succ_pos _
      · intro before rest areSpaces closed notBare
        apply nextToken_numeral rest areSpaces isNumeral closed
        rintro rfl
        exact notBare rfl
  | @string text units isString =>
      refine completes_token (.string (cesu8 units)) (by simp [quoted]) (by simp)
        (fun areSpaces _ _ => nextToken_quoted _ areSpaces isString) ?_
      intro fuel rest
      rw [ecmaBuiltinJsonParseValue, builderUnits_cesu8]
      rfl
  | emptyArray areSpaces => exact completes_emptyArray areSpaces
  | array _ elements => exact completes_array elements
  | emptyObject areSpaces => exact completes_emptyObject areSpaces
  | object _ elements => exact completes_object elements
  | lastItem areBefore areAfter _ item => exact completes_lastItem areBefore areAfter item
  | nextItem areBefore areAfter _ _ item more =>
      exact completes_nextItem areBefore areAfter item more
  | lastMember areBefore isName areColon areMiddle areAfter _ value =>
      exact completes_lastMember areBefore isName areColon areMiddle areAfter value
  | nextMember areBefore isName areColon areMiddle areAfter _ _ value more =>
      exact completes_nextMember areBefore isName areColon areMiddle areAfter value more

end Phrases

section Documents

variable {numbers : NumberConversion} {fuel : ℕ} {document : List CodeUnit} {json : Json}

theorem parseBuffer_complete (isDocument : IsScannedDocument numbers document json)
    (enough : document.length ≤ fuel) :
    ecmaBuiltinJsonParseBuffer numbers fuel (cesu8 document) = .ok (some json) := by
  rcases isDocument.parts with
    ⟨before, text, after, rfl, areBefore, areAfter, derivation, notBare⟩
  have closed : EndsValue (cesu8 after) := by
    have atEnd : EndsValue [] := fun byte isHead => absurd isHead (by simp)
    have spaces := EndsValue.spaces areAfter atEnd
    rwa [List.append_nil] at spaces
  have notBareBytes : text = [0x2D] → cesu8 after ≠ [] := by
    intro single isEnd
    apply notBare single
    cases after with
    | nil => rfl
    | cons unit others =>
        rw [cesu8_cons] at isEnd
        exact absurd (List.append_eq_nil_iff.mp isEnd).1 (Unicode.encode_ne_nil _)
  have less : text.length ≤ fuel := by
    simp only [List.length_append] at enough
    omega
  rcases derivation.completes less areBefore closed notBareBytes with
    ⟨token, next, read, _, parsed⟩
  rw [ecmaBuiltinJsonParseBuffer, cesu8_append, cesu8_append, List.append_assoc, read,
    parse_ok_bind]
  simp only [parsed]
  rw [nextToken_endOfStream areAfter]
  rfl

/-- The inputs that the parser accepts are the documents of the grammar, each with its value;
all others are refused with the error for an invalid format. -/
theorem ecmaBuiltinJsonParseBuffer_iff (numbers : NumberConversion) (document : List CodeUnit)
    (enough : 2 * document.length < fuel) :
    (∀ json, ecmaBuiltinJsonParseBuffer numbers fuel (cesu8 document) = .ok (some json) ↔
        IsScannedDocument numbers document json) ∧
      (ecmaBuiltinJsonParseBuffer numbers fuel (cesu8 document) = .ok none ↔
        ∀ json, ¬IsScannedDocument numbers document json) := by
  rcases parseBuffer_sound numbers document enough with refused | ⟨found, parsed, isDocument⟩
  · have none : ∀ json, ¬IsScannedDocument numbers document json := by
      intro json isDocument
      have accepted := parseBuffer_complete isDocument (show document.length ≤ fuel by omega)
      rw [refused] at accepted
      cases accepted
    refine ⟨fun json => ⟨?_, fun isDocument => absurd isDocument (none json)⟩, ?_⟩
    · intro accepted
      rw [refused] at accepted
      cases accepted
    · exact ⟨fun _ => none, fun _ => refused⟩
  · refine ⟨fun json => ⟨?_, ?_⟩, ?_, ?_⟩
    · intro accepted
      rw [parsed] at accepted
      cases accepted
      exact isDocument
    · intro other
      exact parseBuffer_complete other (by omega)
    · intro refused
      rw [parsed] at refused
      cases refused
    · intro none
      exact absurd isDocument (none found)

/-- Conversions that know the integers of one digit. -/
def digitNumbers : NumberConversion where
  toDecimal value := (Decimal.decimal value.floor.toNat, 1)
  fromDecimal text :=
    match text with
    | [digit] => if Decimal.IsDigit digit then .finite (digit.toNat - 0x30 : ℕ) else .nan
    | [0x2D, digit] => if Decimal.IsDigit digit then .finite (-(digit.toNat - 0x30 : ℕ)) else .nan
    | _ => .nan

/-- A minus sign alone is read as a number, unless it ends the text. -/
theorem ecmaBuiltinJsonParseBuffer_iff_bareMinus :
    IsScannedDocument digitNumbers [0x5B, 0x2D, 0x5D] (.array [.number .nan]) ∧
      ∀ json, ¬IsScannedDocument digitNumbers [0x2D] json :=
  ⟨((@ecmaBuiltinJsonParseBuffer_iff 7 digitNumbers [0x5B, 0x2D, 0x5D] (by decide)).1 _).mp rfl,
    (@ecmaBuiltinJsonParseBuffer_iff 3 digitNumbers [0x2D] (by decide)).2.mp rfl⟩

end Documents

section Standard

variable {numbers : NumberConversion} {text document : List CodeUnit} {json : Json}

theorem IsNumeral.ne_minus {bytes : List UInt8} (isNumeral : IsNumeral bytes) :
    bytes ≠ [0x2D] := by
  rcases isNumeral.parts with ⟨sign, integer, fraction, exponent, rfl, isSign, isInteger, _⟩
  rcases isInteger.exists_first with ⟨digit, others, rfl, isDigit⟩
  intro single
  rcases isSign with rfl | rfl
  · have isMinus : digit = 0x2D := (List.cons.inj single).1
    rw [isMinus] at isDigit
    exact absurd isDigit (by decide)
  · simp at single

/-- In the grammar of the standard a minus sign is not a value. -/
theorem JsonText.ne_minus (derivation : JsonText IsNumeral numbers text (.value json)) :
    text ≠ [0x2D] := by
  intro single
  generalize same : JsonPhrase.value json = phrase at derivation
  cases derivation with
  | @number bytes isNumeral =>
      have ascii := isNumeral.isScannedNumeral.ascii
      exact isNumeral.ne_minus (asciiUnits_ne_minus ascii single)
  | null => exact absurd single (by decide)
  | true => exact absurd single (by decide)
  | false => exact absurd single (by decide)
  | string => simp [quoted] at single
  | emptyArray => simp at single
  | array => simp at single
  | emptyObject => simp at single
  | object => simp at single
  | lastItem => cases same
  | nextItem => cases same
  | lastMember => cases same
  | nextMember => cases same

theorem IsDocument.isScannedDocument (isDocument : IsDocument IsNumeral numbers document json) :
    IsScannedDocument numbers document json := by
  rcases isDocument.parts with ⟨before, text, after, same, areBefore, areAfter, derivation⟩
  have larger : ∀ bytes, IsNumeral bytes → IsScannedNumeral bytes :=
    fun _ isNumeral => isNumeral.isScannedNumeral
  exact ⟨before, text, after, same, areBefore, areAfter, derivation.mono larger,
    fun single => absurd single derivation.ne_minus⟩

def StartsWithDigit (units : List CodeUnit) : Prop :=
  ∃ digit ∈ units.head?, 0x30 ≤ digit.toNat ∧ digit.toNat ≤ 0x39

/-- Behind every minus sign there is a digit. -/
def MinusesSign (units : List CodeUnit) : Prop :=
  ∀ before rest, units = before ++ 0x2D :: rest → StartsWithDigit rest

theorem MinusesSign.right {left right : List CodeUnit} (signs : MinusesSign (left ++ right)) :
    MinusesSign right := by
  rintro before rest rfl
  exact signs (left ++ before) rest (List.append_assoc _ _ _).symm

/-- A numeral of the scanner with a digit behind its minus sign is one of the standard. -/
theorem IsScannedNumeral.isNumeral {bytes : List UInt8} (isNumeral : IsScannedNumeral bytes)
    {rest : List CodeUnit} (signs : MinusesSign (asciiUnits bytes ++ rest))
    (noDigit : ¬StartsWithDigit rest) : IsNumeral bytes := by
  rcases isNumeral.parts with
    ⟨sign, integer, fraction, exponent, rfl, isSign, isInteger, isFraction, isExponent⟩
  rcases isInteger with isInteger | ⟨rfl, rfl⟩
  · exact ⟨sign, integer, fraction, exponent, rfl, isSign, isInteger, isFraction, isExponent⟩
  · have starts := signs [] _ rfl
    exfalso
    rcases isFraction with rfl | ⟨digits, rfl, _⟩
    · rcases isExponent with rfl | ⟨letter, signed, digits, rfl, isLetter, _⟩
      · exact noDigit starts
      · rcases starts with ⟨digit, isHead, lower, upper⟩
        rcases isLetter with rfl | rfl <;>
          · cases isHead
            revert lower upper
            decide
    · rcases starts with ⟨digit, isHead, lower, upper⟩
      cases isHead
      revert lower upper
      decide

theorem not_startsWithDigit_cons {unit : CodeUnit} {rest : List CodeUnit}
    (noDigit : ¬(0x30 ≤ unit.toNat ∧ unit.toNat ≤ 0x39)) : ¬StartsWithDigit (unit :: rest) := by
  rintro ⟨digit, isHead, isDigit⟩
  cases isHead
  exact noDigit isDigit

theorem not_startsWithDigit_spaces {after rest : List CodeUnit} (areSpaces : AreSpaces after)
    (noDigit : ¬StartsWithDigit rest) : ¬StartsWithDigit (after ++ rest) := by
  cases after with
  | nil => exact noDigit
  | cons unit others =>
      apply not_startsWithDigit_cons
      rcases areSpaces unit List.mem_cons_self with rfl | rfl | rfl | rfl <;> decide

/-- Without a minus sign that stands alone the two grammars derive the same. -/
theorem JsonText.standard {phrase : JsonPhrase}
    (derivation : JsonText IsScannedNumeral numbers text phrase) {rest : List CodeUnit}
    (signs : MinusesSign (text ++ rest)) (noDigit : ¬StartsWithDigit rest) :
    JsonText IsNumeral numbers text phrase := by
  induction derivation generalizing rest with
  | null => exact .null
  | true => exact .true
  | false => exact .false
  | number isNumeral => exact .number (isNumeral.isNumeral signs noDigit)
  | string isString => exact .string isString
  | emptyArray areSpaces => exact .emptyArray areSpaces
  | @array text items _ ih =>
      have inner : MinusesSign ([0x5B] ++ (text ++ 0x5D :: rest)) := by simpa using signs
      exact .array (ih inner.right (not_startsWithDigit_cons (by decide)))
  | emptyObject areSpaces => exact .emptyObject areSpaces
  | @object text members _ ih =>
      have inner : MinusesSign ([0x7B] ++ (text ++ 0x7D :: rest)) := by simpa using signs
      exact .object (ih inner.right (not_startsWithDigit_cons (by decide)))
  | @lastItem before text after json areBefore areAfter _ ih =>
      have inner : MinusesSign (before ++ (text ++ (after ++ rest))) := by simpa using signs
      exact .lastItem areBefore areAfter
        (ih inner.right (not_startsWithDigit_spaces areAfter noDigit))
  | @nextItem before text after others json items areBefore areAfter _ _ ih ihRest =>
      have inner : MinusesSign (before ++ (text ++ (after ++ 0x2C :: (others ++ rest)))) := by
        simpa using signs
      have outer : MinusesSign ((before ++ text ++ after ++ [0x2C]) ++ (others ++ rest)) := by
        simpa using signs
      exact .nextItem areBefore areAfter
        (ih inner.right (not_startsWithDigit_spaces areAfter (not_startsWithDigit_cons (by decide))))
        (ihRest outer.right noDigit)
  | @lastMember before name key colon text middle after json areBefore isName areColon areMiddle
      areAfter _ ih =>
      have inner : MinusesSign ((before ++ quoted name ++ colon ++ [0x3A] ++ middle) ++
          (text ++ (after ++ rest))) := by simpa using signs
      exact .lastMember areBefore isName areColon areMiddle areAfter
        (ih inner.right (not_startsWithDigit_spaces areAfter noDigit))
  | @nextMember before name key colon text middle after others json members areBefore isName
      areColon areMiddle areAfter _ _ ih ihRest =>
      have inner : MinusesSign ((before ++ quoted name ++ colon ++ [0x3A] ++ middle) ++
          (text ++ (after ++ 0x2C :: (others ++ rest)))) := by simpa using signs
      have outer : MinusesSign ((before ++ quoted name ++ colon ++ [0x3A] ++ middle ++ text ++
          after ++ [0x2C]) ++ (others ++ rest)) := by simpa using signs
      exact .nextMember areBefore isName areColon areMiddle areAfter
        (ih inner.right (not_startsWithDigit_spaces areAfter (not_startsWithDigit_cons (by decide))))
        (ihRest outer.right noDigit)

/-- Every document of the standard is accepted with its value. Where a digit stands behind
every minus sign, nothing else is accepted. -/
theorem ecmaBuiltinJsonParseBuffer_standard (numbers : NumberConversion)
    (document : List CodeUnit) {fuel : ℕ} (enough : 2 * document.length < fuel) (json : Json) :
    (IsDocument IsNumeral numbers document json →
        ecmaBuiltinJsonParseBuffer numbers fuel (cesu8 document) = .ok (some json)) ∧
      (MinusesSign document →
        ecmaBuiltinJsonParseBuffer numbers fuel (cesu8 document) = .ok (some json) →
        IsDocument IsNumeral numbers document json) := by
  constructor
  · intro isDocument
    exact parseBuffer_complete isDocument.isScannedDocument (by omega)
  · intro signs accepted
    rcases parseBuffer_sound numbers document enough with refused | ⟨found, parsed, isDocument⟩
    · rw [refused] at accepted
      cases accepted
    · rw [parsed] at accepted
      cases accepted
      rcases isDocument.parts with
        ⟨before, text, after, rfl, areBefore, areAfter, derivation, _⟩
      rw [List.append_assoc] at signs
      have noDigit : ¬StartsWithDigit (after ++ []) := by
        apply not_startsWithDigit_spaces areAfter
        rintro ⟨digit, isHead, _⟩
        cases isHead
      rw [List.append_nil] at noDigit
      exact ⟨before, text, after, rfl, areBefore, areAfter,
        derivation.standard signs.right noDigit⟩

theorem ecmaBuiltinJsonParseBuffer_standard_negative :
    IsDocument IsNumeral digitNumbers [0x5B, 0x2D, 0x31, 0x5D] (.array [.number (.finite (-1))]) := by
  have signs : MinusesSign [0x5B, 0x2D, 0x31, 0x5D] := by
    intro before rest same
    match before with
    | [] => simp at same
    | [_] =>
        cases same
        exact ⟨0x31, rfl, by decide⟩
    | [_, _] => simp at same
    | [_, _, _] => simp at same
    | _ :: _ :: _ :: _ :: _ => simp at same
  exact (ecmaBuiltinJsonParseBuffer_standard digitNumbers [0x5B, 0x2D, 0x31, 0x5D]
    (show 2 * 4 < 9 by decide) _).2 signs rfl

end Standard

end Cmsframe
