import Cmsframe.Json.RoundTrip

/-!
# The grammar of JSON

What a text of JSON is, over the code units of a string and without the scanner, and the
value that it denotes. The predicate for numerals is a parameter: with `IsNumeral` the
grammar is that of the standard, and the parser reads it with the larger `IsScannedNumeral`.
-/

namespace Cmsframe

open Unicode (CodeUnit asciiUnits)

/-- The characters between the tokens. -/
def IsSpace (unit : CodeUnit) : Prop := unit = 0x20 ∨ unit = 0x0D ∨ unit = 0x0A ∨ unit = 0x09

instance (unit : CodeUnit) : Decidable (IsSpace unit) := inferInstanceAs (Decidable (_ ∨ _))

def AreSpaces (units : List CodeUnit) : Prop := ∀ unit ∈ units, IsSpace unit

/-- A hexadecimal digit with its value. -/
def IsHexDigit (unit : CodeUnit) (value : ℕ) : Prop :=
  (0x30 ≤ unit.toNat ∧ unit.toNat ≤ 0x39 ∧ value + 0x30 = unit.toNat) ∨
    (0x41 ≤ unit.toNat ∧ unit.toNat ≤ 0x46 ∧ value + 0x41 = unit.toNat + 10) ∨
    (0x61 ≤ unit.toNat ∧ unit.toNat ≤ 0x66 ∧ value + 0x61 = unit.toNat + 10)

/-- What can follow a backslash, and the code unit it stands for. -/
inductive IsEscape : List CodeUnit → CodeUnit → Prop where
  | quote : IsEscape [0x22] 0x22
  | solidus : IsEscape [0x2F] 0x2F
  | backslash : IsEscape [0x5C] 0x5C
  | backspace : IsEscape [0x62] 0x08
  | formFeed : IsEscape [0x66] 0x0C
  | lineFeed : IsEscape [0x6E] 0x0A
  | carriageReturn : IsEscape [0x72] 0x0D
  | tab : IsEscape [0x74] 0x09
  | unicode {first second third fourth : CodeUnit} {a b c d : ℕ} (isFirst : IsHexDigit first a)
      (isSecond : IsHexDigit second b) (isThird : IsHexDigit third c)
      (isFourth : IsHexDigit fourth d) :
      IsEscape [0x75, first, second, third, fourth]
        (UInt16.ofNat (((a * 16 + b) * 16 + c) * 16 + d))

/-- The text between the quotes of a string literal, and the string. -/
inductive StringText : List CodeUnit → List CodeUnit → Prop where
  | nil : StringText [] []
  | plain {unit : CodeUnit} {text units : List CodeUnit} (notControl : 0x20 ≤ unit.toNat)
      (notQuote : unit ≠ 0x22) (notBackslash : unit ≠ 0x5C) (rest : StringText text units) :
      StringText (unit :: text) (unit :: units)
  | escape {unit : CodeUnit} {letters text units : List CodeUnit}
      (isEscape : IsEscape letters unit) (rest : StringText text units) :
      StringText (0x5C :: (letters ++ text)) (unit :: units)

def quoted (text : List CodeUnit) : List CodeUnit := 0x22 :: (text ++ [0x22])

/-- An exponent in all its forms. -/
def IsExponentPart (bytes : List UInt8) : Prop :=
  bytes = [] ∨ ∃ letter sign digits, bytes = letter :: (sign ++ digits) ∧
    (letter = 0x65 ∨ letter = 0x45) ∧ (sign = [] ∨ sign = [0x2B] ∨ sign = [0x2D]) ∧ IsDigits digits

/-- The numerals of the standard. -/
structure IsNumeral (text : List UInt8) : Prop where
  parts : ∃ sign integer fraction exponent, text = sign ++ integer ++ fraction ++ exponent ∧
    (sign = [] ∨ sign = [0x2D]) ∧ IsInteger integer ∧ IsFraction fraction ∧
    IsExponentPart exponent

/-- The numerals of the scanner: behind a minus sign the integer part can be missing. -/
structure IsScannedNumeral (text : List UInt8) : Prop where
  parts : ∃ sign integer fraction exponent, text = sign ++ integer ++ fraction ++ exponent ∧
    (sign = [] ∨ sign = [0x2D]) ∧ (IsInteger integer ∨ sign = [0x2D] ∧ integer = []) ∧
    IsFraction fraction ∧ IsExponentPart exponent

theorem IsNumeral.isScannedNumeral {text : List UInt8} (isNumeral : IsNumeral text) :
    IsScannedNumeral text := by
  rcases isNumeral.parts with ⟨sign, integer, fraction, exponent, same, isSign, isInteger, others⟩
  exact ⟨sign, integer, fraction, exponent, same, isSign, .inl isInteger, others⟩

/-- What a production derives: one value, the items of an array, or the members of an object
in the order of the text. -/
inductive JsonPhrase where
  | value (json : Json)
  | items (items : List Json)
  | members (members : List (List CodeUnit × Json))

/-- The value of the last member with a name. -/
def lastValue (members : List (List CodeUnit × Json)) (name : List CodeUnit) : Json :=
  ((members.filter fun member => member.1 = name).getLast?.map Prod.snd).getD .null

/-- The names of an object stand in the order in which they first occur, each with the value of
the last member that has it. -/
def objectMembers (members : List (List CodeUnit × Json)) : List (List CodeUnit × Json) :=
  (members.map Prod.fst).eraseDups.map fun name => (name, lastValue members name)

def objectOf (members : List (List CodeUnit × Json)) : Json := .object (objectMembers members)

/-- The productions of the grammar. -/
inductive JsonText (numeral : List UInt8 → Prop) (numbers : NumberConversion) :
    List CodeUnit → JsonPhrase → Prop where
  | null : JsonText numeral numbers (asciiUnits (asciiBytes "null")) (.value .null)
  | true : JsonText numeral numbers (asciiUnits (asciiBytes "true")) (.value (.boolean true))
  | false : JsonText numeral numbers (asciiUnits (asciiBytes "false")) (.value (.boolean false))
  | number {bytes : List UInt8} (isNumeral : numeral bytes) :
      JsonText numeral numbers (asciiUnits bytes) (.value (.number (numbers.fromDecimal bytes)))
  | string {text units : List CodeUnit} (isString : StringText text units) :
      JsonText numeral numbers (quoted text) (.value (.string units))
  | emptyArray {spaces : List CodeUnit} (areSpaces : AreSpaces spaces) :
      JsonText numeral numbers (0x5B :: (spaces ++ [0x5D])) (.value (.array []))
  | array {text : List CodeUnit} {items : List Json}
      (elements : JsonText numeral numbers text (.items items)) :
      JsonText numeral numbers (0x5B :: (text ++ [0x5D])) (.value (.array items))
  | emptyObject {spaces : List CodeUnit} (areSpaces : AreSpaces spaces) :
      JsonText numeral numbers (0x7B :: (spaces ++ [0x7D])) (.value (.object []))
  | object {text : List CodeUnit} {members : List (List CodeUnit × Json)}
      (elements : JsonText numeral numbers text (.members members)) :
      JsonText numeral numbers (0x7B :: (text ++ [0x7D])) (.value (objectOf members))
  | lastItem {before text after : List CodeUnit} {json : Json} (areBefore : AreSpaces before)
      (areAfter : AreSpaces after) (item : JsonText numeral numbers text (.value json)) :
      JsonText numeral numbers (before ++ text ++ after) (.items [json])
  | nextItem {before text after others : List CodeUnit} {json : Json} {items : List Json}
      (areBefore : AreSpaces before) (areAfter : AreSpaces after)
      (item : JsonText numeral numbers text (.value json))
      (rest : JsonText numeral numbers others (.items items)) :
      JsonText numeral numbers (before ++ text ++ after ++ 0x2C :: others) (.items (json :: items))
  | lastMember {before name key colon text middle after : List CodeUnit} {json : Json}
      (areBefore : AreSpaces before) (isName : StringText name key) (areColon : AreSpaces colon)
      (areMiddle : AreSpaces middle) (areAfter : AreSpaces after)
      (value : JsonText numeral numbers text (.value json)) :
      JsonText numeral numbers
        (before ++ quoted name ++ colon ++ 0x3A :: (middle ++ text ++ after))
        (.members [(key, json)])
  | nextMember {before name key colon text middle after others : List CodeUnit} {json : Json}
      {members : List (List CodeUnit × Json)}
      (areBefore : AreSpaces before) (isName : StringText name key) (areColon : AreSpaces colon)
      (areMiddle : AreSpaces middle) (areAfter : AreSpaces after)
      (value : JsonText numeral numbers text (.value json))
      (rest : JsonText numeral numbers others (.members members)) :
      JsonText numeral numbers
        (before ++ quoted name ++ colon ++ 0x3A :: (middle ++ text ++ after ++ 0x2C :: others))
        (.members ((key, json) :: members))

section Objects

theorem lastValue_append (members : List (List CodeUnit × Json)) (name other : List CodeUnit)
    (value : Json) :
    lastValue (members ++ [(name, value)]) other =
      if name = other then value else lastValue members other := by
  rw [lastValue, List.filter_append]
  by_cases same : name = other
  · simp [same]
  · simp [same, lastValue]

theorem map_fst_objectMembers (members : List (List CodeUnit × Json)) :
    (objectMembers members).map Prod.fst = (members.map Prod.fst).eraseDups := by
  simp [objectMembers, Function.comp_def]

/-- The parser defines the properties one by one. -/
theorem foldl_defineValueProperty (members : List (List CodeUnit × Json)) :
    members.foldl (fun object member => defineValueProperty object member.1 member.2) [] =
      objectMembers members := by
  induction members using List.reverseRecOn with
  | nil => rfl
  | append_singleton members member ih =>
      rcases member with ⟨name, value⟩
      have extended : objectMembers (members ++ [(name, value)]) =
          ((members.map Prod.fst).eraseDups ++ if name ∈ members.map Prod.fst then [] else [name]).map
            fun other => (other, if name = other then value else lastValue members other) := by
        rw [objectMembers, List.map_append, List.map_singleton, List.eraseDups_append]
        simp only [lastValue_append]
        by_cases known : name ∈ members.map Prod.fst
        · rw [if_pos known]
          simp [List.removeAll, known]
        · rw [if_neg known]
          simp [List.removeAll, known, List.eraseDups_cons]
      rw [List.foldl_append, ih, List.foldl_cons, List.foldl_nil, defineValueProperty,
        map_fst_objectMembers, extended]
      by_cases known : name ∈ members.map Prod.fst
      · rw [if_pos (List.mem_eraseDups.mpr known), if_pos known, List.append_nil, objectMembers,
          List.map_map]
        apply List.map_congr_left
        intro other _
        by_cases same : other = name
        · simp [same]
        · simp [same, Ne.symm same]
      · rw [if_neg (mt List.mem_eraseDups.mp known), if_neg known, List.map_append, objectMembers]
        congr 1
        · apply List.map_congr_left
          intro other mem
          have notName : name ≠ other := by
            rintro rfl
            exact known (List.mem_eraseDups.mp mem)
          rw [if_neg notName]
        · simp

end Objects

/-- A larger class of numerals has more texts, with the same values. -/
theorem JsonText.mono {numeral other : List UInt8 → Prop} {numbers : NumberConversion}
    (larger : ∀ bytes, numeral bytes → other bytes) {text : List CodeUnit} {phrase : JsonPhrase}
    (derivation : JsonText numeral numbers text phrase) : JsonText other numbers text phrase := by
  induction derivation with
  | null => exact .null
  | true => exact .true
  | false => exact .false
  | number isNumeral => exact .number (larger _ isNumeral)
  | string isString => exact .string isString
  | emptyArray areSpaces => exact .emptyArray areSpaces
  | array _ elements => exact .array elements
  | emptyObject areSpaces => exact .emptyObject areSpaces
  | object _ elements => exact .object elements
  | lastItem areBefore areAfter _ item => exact .lastItem areBefore areAfter item
  | nextItem areBefore areAfter _ _ item rest => exact .nextItem areBefore areAfter item rest
  | lastMember areBefore isName areColon areMiddle areAfter _ value =>
      exact .lastMember areBefore isName areColon areMiddle areAfter value
  | nextMember areBefore isName areColon areMiddle areAfter _ _ value rest =>
      exact .nextMember areBefore isName areColon areMiddle areAfter value rest

/-- A document: a value between spaces. -/
structure IsDocument (numeral : List UInt8 → Prop) (numbers : NumberConversion)
    (document : List CodeUnit) (json : Json) : Prop where
  parts : ∃ before text after, document = before ++ text ++ after ∧ AreSpaces before ∧
    AreSpaces after ∧ JsonText numeral numbers text (.value json)

/-- The documents of the parser: at the very end of the input a single minus sign is not
a numeral. -/
structure IsScannedDocument (numbers : NumberConversion) (document : List CodeUnit)
    (json : Json) : Prop where
  parts : ∃ before text after, document = before ++ text ++ after ∧ AreSpaces before ∧
    AreSpaces after ∧ JsonText IsScannedNumeral numbers text (.value json) ∧
    (text = [0x2D] → after ≠ [])

end Cmsframe
