import Cmsframe.Json.Parse

/-!
# Reading JSON back

The parser takes the text of every tree as a whole and rebuilds the tree from it. The one
thing that is lost is the sign of zero. Trees of objects have distinct keys in each object,
and their numbers are finite and survive the two conversions.
-/

namespace Cmsframe

open Unicode (CodeUnit cesu8 cesu8_cons cesu8_nil cesu8_append asciiUnits)

namespace Json

mutual

/-- The value that is read back: there is no negative zero in it. -/
def readBack : Json → Json
  | .number value => .number value.readBack
  | .array items => .array (readBackItems items)
  | .object members => .object (readBackMembers members)
  | json => json

def readBackItems : List Json → List Json
  | [] => []
  | item :: items => item.readBack :: readBackItems items

def readBackMembers : List (List CodeUnit × Json) → List (List CodeUnit × Json)
  | [] => []
  | (key, value) :: members => (key, value.readBack) :: readBackMembers members

end

theorem readBackItems_eq (items : List Json) : readBackItems items = items.map readBack := by
  induction items with
  | nil => rw [readBackItems, List.map_nil]
  | cons item items ih => rw [readBackItems, ih, List.map_cons]

theorem readBackMembers_eq (members : List (List CodeUnit × Json)) :
    readBackMembers members = members.map fun member => (member.1, member.2.readBack) := by
  induction members with
  | nil => rw [readBackMembers, List.map_nil]
  | cons member members ih => rw [readBackMembers, ih, List.map_cons]

/-- The trees that can be read back. -/
inductive Readable (numbers : NumberConversion) : Json → Prop where
  | null : Readable numbers .null
  | boolean (value : Bool) : Readable numbers (.boolean value)
  | number {value : EcmaNumber} (isFinite : value.isFinite = true)
      (readsBack : numbers.ReadsBack value) : Readable numbers (.number value)
  | string (units : List CodeUnit) : Readable numbers (.string units)
  | array {items : List Json} (each : ∀ item ∈ items, Readable numbers item) :
      Readable numbers (.array items)
  | object {members : List (List CodeUnit × Json)} (distinct : (members.map Prod.fst).Nodup)
      (each : ∀ member ∈ members, Readable numbers member.2) : Readable numbers (.object members)

end Json

section Numbers

variable {numbers : NumberConversion} {number : EcmaNumber}

/-- The short form of an unsigned number is its general form. -/
theorem numberUnits_eq (numbers : NumberConversion) (number : EcmaNumber) :
    numberUnits numbers number = asciiUnits (ecmaNumberToUtf8String numbers number) := by
  rw [numberUnits]
  split_ifs with isUint
  · cases number with
    | nan => cases isUint
    | infinity negative => cases isUint
    | negativeZero => rfl
    | finite value =>
        have whole : value = ((EcmaNumber.finite value).toUint32 : ℚ) := by
          simpa [EcmaNumber.eqInt] using isUint
        have nonnegative : 0 ≤ value := by
          rw [whole]
          exact Nat.cast_nonneg _
        have magnitude : |value| = value := abs_of_nonneg nonnegative
        rw [ecmaNumberToUtf8String]
        by_cases zero : value = 0
        · subst zero
          rfl
        · simp only [zero, if_false, not_lt.mpr nonnegative, magnitude, isUint, if_true,
            List.nil_append]
  · rfl

theorem IsNumberText.ascii {text : List UInt8} (isNumber : IsNumberText text) :
    ∀ byte ∈ text, 0x20 ≤ byte.toNat ∧ byte.toNat < 0x80 := by
  have digit : ∀ {byte : UInt8}, Decimal.IsDigit byte → 0x20 ≤ byte.toNat ∧ byte.toNat < 0x80 := by
    intro byte isDigit
    unfold Decimal.IsDigit at isDigit
    omega
  rcases isNumber.parts with
    ⟨sign, integer, fraction, exponent, rfl, isSign, isInteger, isFraction, isExponent⟩
  intro byte mem
  simp only [List.mem_append] at mem
  rcases mem with ((inSign | inInteger) | inFraction) | inExponent
  · rcases isSign with rfl | rfl
    · cases inSign
    · rw [List.mem_singleton.mp inSign]
      decide
  · rcases isInteger with rfl | ⟨⟨_, areDigits⟩, _⟩
    · rw [List.mem_singleton.mp inInteger]
      decide
    · exact digit (areDigits byte inInteger)
  · rcases isFraction with rfl | ⟨digits, rfl, _, areDigits⟩
    · cases inFraction
    · rcases List.mem_cons.mp inFraction with rfl | inDigits
      · decide
      · exact digit (areDigits byte inDigits)
  · rcases isExponent with rfl | ⟨sign, digits, rfl, isSign, _, areDigits⟩
    · cases inExponent
    · rcases List.mem_cons.mp inExponent with rfl | inRest
      · decide
      · rcases List.mem_cons.mp inRest with rfl | inDigits
        · rcases isSign with rfl | rfl <;> decide
        · exact digit (areDigits byte inDigits)

end Numbers

section Tokens

variable (numbers : NumberConversion) (rest : List UInt8) (parseString : Bool)

theorem nextToken_leftBrace :
    ecmaBuiltinJsonParseNextToken numbers (0x7B :: rest) parseString = .ok (.leftBrace, rest) := rfl

theorem nextToken_rightBrace :
    ecmaBuiltinJsonParseNextToken numbers (0x7D :: rest) parseString = .ok (.rightBrace, rest) := rfl

theorem nextToken_leftSquare :
    ecmaBuiltinJsonParseNextToken numbers (0x5B :: rest) parseString = .ok (.leftSquare, rest) := rfl

theorem nextToken_rightSquare :
    ecmaBuiltinJsonParseNextToken numbers (0x5D :: rest) parseString =
      .ok (.rightSquare, rest) := rfl

theorem nextToken_comma :
    ecmaBuiltinJsonParseNextToken numbers (0x2C :: rest) parseString = .ok (.comma, rest) := rfl

theorem nextToken_colon :
    ecmaBuiltinJsonParseNextToken numbers (0x3A :: rest) parseString = .ok (.colon, rest) := rfl

theorem parseKeyword_append (token : JsonToken) (keyword start : List UInt8) :
    parseKeyword token keyword start (keyword ++ rest) = (token, rest) := by
  rw [parseKeyword, if_pos (List.prefix_append keyword rest), List.drop_left]

theorem nextToken_null :
    ecmaBuiltinJsonParseNextToken numbers (asciiBytes "null" ++ rest) parseString =
      .ok (.null, rest) :=
  congrArg Except.ok (parseKeyword_append rest .null (asciiBytes "null") _)

theorem nextToken_true :
    ecmaBuiltinJsonParseNextToken numbers (asciiBytes "true" ++ rest) parseString =
      .ok (.true, rest) :=
  congrArg Except.ok (parseKeyword_append rest .true (asciiBytes "true") _)

theorem nextToken_false :
    ecmaBuiltinJsonParseNextToken numbers (asciiBytes "false" ++ rest) parseString =
      .ok (.false, rest) :=
  congrArg Except.ok (parseKeyword_append rest .false (asciiBytes "false") _)

end Tokens

/-- The parser takes the text of a value as a whole, in front of all that can follow it. -/
def Json.ReadsAs (numbers : NumberConversion) (json : Json) : Prop :=
  ∀ {fuel : ℕ} {rest : List UInt8}, (json.units numbers).length ≤ fuel → Terminated rest →
    ∃ token next,
      ecmaBuiltinJsonParseNextToken numbers (cesu8 (json.units numbers) ++ rest) true =
        .ok (token, next) ∧
      token ≠ .rightSquare ∧
      ecmaBuiltinJsonParseValue numbers fuel token next = .ok (json.readBack, rest)

section Values

variable {numbers : NumberConversion} {fuel : ℕ} {rest next : List UInt8} {token : JsonToken}

theorem builderUnits_cesu8 (units : List CodeUnit) : builderUnits (cesu8 units) = units :=
  cesu8Units_cesu8 units le_rfl

theorem defineValueProperty_of_not_mem {members : List (List CodeUnit × Json)}
    {name : List CodeUnit} (isNew : name ∉ members.map Prod.fst) (value : Json) :
    defineValueProperty members name value = members ++ [(name, value)] := by
  rw [defineValueProperty, if_neg isNew]

theorem parse_ok_bind {Result Other : Type} (result : Result)
    (continuation : Result → Except ParseStop Other) :
    (.ok result : Except ParseStop Result) >>= continuation = continuation result := rfl

/-- An array that is not empty. -/
theorem parseValue_leftSquare
    (scanned : ecmaBuiltinJsonParseNextToken numbers rest true = .ok (token, next))
    (notEmpty : token ≠ .rightSquare) :
    ecmaBuiltinJsonParseValue numbers (fuel + 1) .leftSquare rest =
      parseItems numbers fuel [] token next := by
  simp only [ecmaBuiltinJsonParseValue, scanned]
  cases token with
  | rightSquare => exact absurd rfl notEmpty
  | _ => rfl

/-- An object that is not empty. -/
theorem parseValue_leftBrace {name : List UInt8}
    (scanned : ecmaBuiltinJsonParseNextToken numbers rest true = .ok (.string name, next)) :
    ecmaBuiltinJsonParseValue numbers (fuel + 1) .leftBrace rest =
      parseMembers numbers fuel [] (.string name) next := by
  simp only [ecmaBuiltinJsonParseValue, scanned]
  rfl

section Turns

variable {afterColon behind further : List UInt8} {value : Json} {items : List Json}
variable {members : List (List CodeUnit × Json)} {name following : List UInt8}

/-- The last item. -/
theorem parseItems_close
    (parsed : ecmaBuiltinJsonParseValue numbers fuel token next = .ok (value, behind))
    (closed : ecmaBuiltinJsonParseNextToken numbers behind false = .ok (.rightSquare, rest)) :
    parseItems numbers (fuel + 1) items token next = .ok (.array (items ++ [value]), rest) := by
  simp only [parseItems, parsed, closed, parse_ok_bind]
  rfl

/-- An item in front of another one. -/
theorem parseItems_comma {first : JsonToken}
    (parsed : ecmaBuiltinJsonParseValue numbers fuel token next = .ok (value, behind))
    (comma : ecmaBuiltinJsonParseNextToken numbers behind false = .ok (.comma, further))
    (scanned : ecmaBuiltinJsonParseNextToken numbers further true = .ok (first, rest)) :
    parseItems numbers (fuel + 1) items token next =
      parseItems numbers fuel (items ++ [value]) first rest := by
  simp only [parseItems, parsed, comma, parse_ok_bind, scanned]

/-- The last member. -/
theorem parseMembers_close
    (colon : ecmaBuiltinJsonParseNextToken numbers next false = .ok (.colon, afterColon))
    (scanned : ecmaBuiltinJsonParseNextToken numbers afterColon true = .ok (token, further))
    (parsed : ecmaBuiltinJsonParseValue numbers fuel token further = .ok (value, behind))
    (closed : ecmaBuiltinJsonParseNextToken numbers behind false = .ok (.rightBrace, rest)) :
    parseMembers numbers (fuel + 1) members (.string name) next =
      .ok (.object (defineValueProperty members (builderUnits name) value), rest) := by
  simp only [parseMembers, colon, parse_ok_bind, scanned, parsed, closed]
  rfl

/-- A member in front of another one. -/
theorem parseMembers_comma {first : JsonToken} {others : List UInt8}
    (colon : ecmaBuiltinJsonParseNextToken numbers next false = .ok (.colon, afterColon))
    (scanned : ecmaBuiltinJsonParseNextToken numbers afterColon true = .ok (token, further))
    (parsed : ecmaBuiltinJsonParseValue numbers fuel token further = .ok (value, behind))
    (comma : ecmaBuiltinJsonParseNextToken numbers behind false = .ok (.comma, others))
    (scannedNext : ecmaBuiltinJsonParseNextToken numbers others true = .ok (first, rest)) :
    parseMembers numbers (fuel + 1) members (.string name) next =
      parseMembers numbers fuel (defineValueProperty members (builderUnits name) value) first
        rest := by
  simp only [parseMembers, colon, parse_ok_bind, scanned, parsed, comma, scannedNext]

end Turns

/-- What follows an item or a member: the other ones, and the end. -/
def remainder (pieces : List (List CodeUnit)) (close : UInt8) (rest : List UInt8) : List UInt8 :=
  cesu8 (pieces.flatMap fun piece => [0x2C] ++ piece) ++ close :: rest

theorem remainder_nil (close : UInt8) (rest : List UInt8) :
    remainder [] close rest = close :: rest := rfl

theorem remainder_cons (piece : List CodeUnit) (pieces : List (List CodeUnit)) (close : UInt8)
    (rest : List UInt8) :
    remainder (piece :: pieces) close rest =
      0x2C :: (cesu8 piece ++ remainder pieces close rest) := by
  have comma : Unicode.encode 0x2C = [0x2C] := rfl
  simp [remainder, cesu8_append, comma]

theorem terminated_remainder (pieces : List (List CodeUnit)) {close : UInt8}
    (isClose : close = 0x5D ∨ close = 0x7D) (rest : List UInt8) :
    Terminated (remainder pieces close rest) := by
  cases pieces with
  | nil => exact .inr ⟨close, rest, remainder_nil close rest, .inr isClose⟩
  | cons piece pieces => exact .inr ⟨0x2C, _, remainder_cons piece pieces close rest, .inl rfl⟩

section Enclosed

variable {first last : CodeUnit} {opening close : UInt8}

theorem cesu8_enclosed_nil (isOpening : Unicode.encode first.toNat = [opening])
    (isClose : Unicode.encode last.toNat = [close]) (rest : List UInt8) :
    cesu8 ([first] ++ commaSeparated [] ++ [last]) ++ rest = opening :: close :: rest := by
  simp [commaSeparated, isOpening, isClose]

/-- The bytes of an array or an object that is not empty. -/
theorem cesu8_enclosed_cons (isOpening : Unicode.encode first.toNat = [opening])
    (isClose : Unicode.encode last.toNat = [close]) (piece : List CodeUnit)
    (pieces : List (List CodeUnit)) (rest : List UInt8) :
    cesu8 ([first] ++ commaSeparated (piece :: pieces) ++ [last]) ++ rest =
      opening :: (cesu8 piece ++ remainder pieces close rest) := by
  simp [commaSeparated_cons, remainder, cesu8_append, isOpening, isClose]

theorem length_enclosed_cons (piece : List CodeUnit) (pieces : List (List CodeUnit)) :
    ([first] ++ commaSeparated (piece :: pieces) ++ [last]).length =
      ((piece :: pieces).flatMap fun other => [0x2C] ++ other).length + 1 := by
  simp only [commaSeparated_cons, List.flatMap_cons, List.length_append, List.length_singleton]
  omega

end Enclosed

theorem memberText_append (member : List CodeUnit × Json) (behind : List UInt8) :
    cesu8 (Json.memberText numbers member) ++ behind =
      cesu8 (quotedUnits member.1) ++ 0x3A :: (cesu8 (member.2.units numbers) ++ behind) := by
  have colon : Unicode.encode 0x3A = [0x3A] := rfl
  simp [Json.memberText, cesu8_append, colon]

theorem length_units_lt (numbers : NumberConversion) (member : List CodeUnit × Json) :
    (member.2.units numbers).length < (Json.memberText numbers member).length := by
  simp only [Json.memberText, List.length_append, List.length_singleton]
  omega

/-- The key of the next member is new. -/
theorem not_mem_of_nodup {done members : List (List CodeUnit × Json)}
    {member : List CodeUnit × Json}
    (distinct : (done.map Prod.fst ++ (member :: members).map Prod.fst).Nodup) :
    member.1 ∉ done.map Prod.fst := by
  intro mem
  exact (List.nodup_append.mp distinct).2.2 member.1 mem member.1 List.mem_cons_self rfl

/-- The loop over the items of an array, at the beginning of an item. -/
theorem parseItems_items {item : Json} {items : List Json}
    (each : ∀ other ∈ item :: items, other.ReadsAs numbers) {done : List Json}
    (enough : ((item :: items).flatMap fun other => [0x2C] ++ other.units numbers).length ≤ fuel) :
    ∃ token next, ecmaBuiltinJsonParseNextToken numbers (cesu8 (item.units numbers) ++
        remainder (items.map (Json.units numbers)) 0x5D rest) true = .ok (token, next) ∧
      token ≠ .rightSquare ∧
      parseItems numbers fuel done token next =
        .ok (.array (done ++ (item :: items).map Json.readBack), rest) := by
  induction items generalizing item done fuel with
  | nil =>
      simp only [List.flatMap_cons, List.flatMap_nil, List.length_append, List.length_singleton,
        List.length_nil] at enough
      obtain ⟨fuel, rfl⟩ : ∃ less, fuel = less + 1 := ⟨fuel - 1, by omega⟩
      rcases each item List.mem_cons_self (show _ ≤ fuel by omega)
        (terminated_remainder [] (.inl rfl) rest) with ⟨token, next, scanned, other, parsed⟩
      refine ⟨token, next, scanned, other, ?_⟩
      rw [remainder_nil] at parsed
      exact parseItems_close parsed (nextToken_rightSquare numbers rest false)
  | cons following items ih =>
      rw [List.flatMap_cons, List.length_append, List.length_append, List.length_singleton]
        at enough
      obtain ⟨fuel, rfl⟩ : ∃ less, fuel = less + 1 := ⟨fuel - 1, by omega⟩
      rcases each item List.mem_cons_self (show _ ≤ fuel by omega)
        (terminated_remainder ((following :: items).map (Json.units numbers)) (.inl rfl) rest)
        with ⟨token, next, scanned, other, parsed⟩
      refine ⟨token, next, scanned, other, ?_⟩
      rcases @ih fuel following (fun value mem => each value (List.mem_cons_of_mem item mem))
        (done ++ [item.readBack]) (by omega) with ⟨first, behind, scannedNext, _, parsedRest⟩
      rw [List.map_cons, remainder_cons] at parsed
      rw [parseItems_comma parsed (nextToken_comma numbers _ false) scannedNext, parsedRest]
      simp

/-- The loop over the members of an object, behind the key of a member. -/
theorem parseMembers_members {member : List CodeUnit × Json}
    {members : List (List CodeUnit × Json)}
    (each : ∀ other ∈ member :: members, other.2.ReadsAs numbers)
    {done : List (List CodeUnit × Json)}
    (distinct : (done.map Prod.fst ++ (member :: members).map Prod.fst).Nodup)
    (enough : ((member :: members).flatMap fun other =>
      [0x2C] ++ Json.memberText numbers other).length ≤ fuel) :
    parseMembers numbers fuel done (.string (cesu8 member.1))
        (0x3A :: (cesu8 (member.2.units numbers) ++
          remainder (members.map (Json.memberText numbers)) 0x7D rest)) =
      .ok (.object (done ++ (member :: members).map fun other => (other.1, other.2.readBack)),
        rest) := by
  induction members generalizing member done fuel with
  | nil =>
      have longer := length_units_lt numbers member
      simp only [List.flatMap_cons, List.flatMap_nil, List.length_append, List.length_singleton,
        List.length_nil] at enough
      obtain ⟨fuel, rfl⟩ : ∃ less, fuel = less + 1 := ⟨fuel - 1, by omega⟩
      rcases each member List.mem_cons_self (show _ ≤ fuel by omega)
        (terminated_remainder [] (.inr rfl) rest) with ⟨token, next, scanned, _, parsed⟩
      rw [remainder_nil] at parsed
      rw [List.map_nil, parseMembers_close (nextToken_colon numbers _ false) scanned parsed
        (nextToken_rightBrace numbers rest false), builderUnits_cesu8,
        defineValueProperty_of_not_mem (not_mem_of_nodup distinct)]
      rfl
  | cons following members ih =>
      rw [List.flatMap_cons, List.length_append, List.length_append, List.length_singleton]
        at enough
      have longer := length_units_lt numbers member
      obtain ⟨fuel, rfl⟩ : ∃ less, fuel = less + 1 := ⟨fuel - 1, by omega⟩
      rcases each member List.mem_cons_self (show _ ≤ fuel by omega)
        (terminated_remainder ((following :: members).map (Json.memberText numbers)) (.inr rfl)
          rest) with ⟨token, next, scanned, _, parsed⟩
      have parsedRest := @ih fuel following
        (fun value mem => each value (List.mem_cons_of_mem member mem))
        (done ++ [(member.1, member.2.readBack)]) (by simpa using distinct) (by omega)
      rw [List.map_cons, remainder_cons, memberText_append] at parsed
      rw [parseMembers_comma (nextToken_colon numbers _ false) scanned parsed
        (nextToken_comma numbers _ false) (nextToken_string numbers following.1),
        builderUnits_cesu8, defineValueProperty_of_not_mem (not_mem_of_nodup distinct), parsedRest]
      simp

end Values

namespace Json

variable {numbers : NumberConversion}

/-- A value that is one token. -/
theorem readsAs_of_token {json : Json} (token : JsonToken)
    (notEmpty : 0 < (json.units numbers).length)
    (scanned : ∀ rest, Terminated rest →
      ecmaBuiltinJsonParseNextToken numbers (cesu8 (json.units numbers) ++ rest) true =
        .ok (token, rest))
    (other : token ≠ .rightSquare)
    (parsed : ∀ fuel rest,
      ecmaBuiltinJsonParseValue numbers (fuel + 1) token rest = .ok (json.readBack, rest)) :
    json.ReadsAs numbers := by
  intro fuel rest enough terminated
  obtain ⟨fuel, rfl⟩ : ∃ less, fuel = less + 1 := ⟨fuel - 1, by omega⟩
  exact ⟨token, rest, scanned rest terminated, other, parsed fuel rest⟩

theorem readsAs_number {value : EcmaNumber} (isFinite : value.isFinite = true)
    (readsBack : numbers.ReadsBack value) : (Json.number value).ReadsAs numbers := by
  have isText := isNumberText_ecmaNumberToUtf8String isFinite readsBack
  have bytes : cesu8 ((Json.number value).units numbers) = ecmaNumberToUtf8String numbers value := by
    rw [units, numberUnits_eq]
    exact Unicode.cesu8_asciiUnits fun byte mem => (isText.ascii byte mem).2
  apply readsAs_of_token (.number value.readBack)
  · rw [units, numberUnits_eq, asciiUnits, List.length_map]
    rcases isText.exists_first with ⟨first, others, same, _⟩
    rw [same]
    exact Nat.succ_pos _
  · intro rest terminated
    rw [bytes, nextToken_number numbers true isText terminated, readsBack.reads]
  · simp
  · intro fuel rest
    rfl

theorem readsAs_string (units : List CodeUnit) : (Json.string units).ReadsAs numbers := by
  apply readsAs_of_token (.string (cesu8 units))
  · exact Nat.succ_pos _
  · intro rest _
    exact nextToken_string numbers units
  · simp
  · intro fuel rest
    rw [ecmaBuiltinJsonParseValue, builderUnits_cesu8]
    rfl

theorem readsAs_array {items : List Json} (each : ∀ item ∈ items, item.ReadsAs numbers) :
    (Json.array items).ReadsAs numbers := by
  intro fuel rest enough terminated
  rw [units, itemUnits_eq] at enough ⊢
  rw [readBack, readBackItems_eq]
  cases items with
  | nil =>
      obtain ⟨fuel, rfl⟩ : ∃ less, fuel = less + 1 :=
        ⟨fuel - 1, by simp [commaSeparated] at enough; omega⟩
      rw [List.map_nil, cesu8_enclosed_nil rfl rfl]
      refine ⟨.leftSquare, 0x5D :: rest, nextToken_leftSquare numbers _ true, by simp, ?_⟩
      simp only [ecmaBuiltinJsonParseValue, nextToken_rightSquare, parse_ok_bind]
      rfl
  | cons item items =>
      rw [List.map_cons, length_enclosed_cons] at enough
      obtain ⟨fuel, rfl⟩ : ∃ less, fuel = less + 1 := ⟨fuel - 1, by omega⟩
      have smaller : ((item :: items).flatMap fun other =>
          [0x2C] ++ other.units numbers).length ≤ fuel := by
        rw [← List.map_cons, List.flatMap_map] at enough
        omega
      rcases @parseItems_items numbers fuel rest item items each [] smaller with
        ⟨token, next, scanned, other, parsed⟩
      have closing : Unicode.encode (0x5D : CodeUnit).toNat = [0x5D] := rfl
      rw [List.map_cons, cesu8_enclosed_cons rfl closing]
      refine ⟨.leftSquare, _, nextToken_leftSquare numbers _ true, by simp, ?_⟩
      rw [parseValue_leftSquare scanned other, parsed, List.nil_append]

theorem readsAs_object {members : List (List CodeUnit × Json)}
    (distinct : (members.map Prod.fst).Nodup)
    (each : ∀ member ∈ members, member.2.ReadsAs numbers) :
    (Json.object members).ReadsAs numbers := by
  intro fuel rest enough terminated
  rw [units, memberUnits_eq] at enough ⊢
  rw [readBack, readBackMembers_eq]
  cases members with
  | nil =>
      obtain ⟨fuel, rfl⟩ : ∃ less, fuel = less + 1 :=
        ⟨fuel - 1, by simp [commaSeparated] at enough; omega⟩
      rw [List.map_nil, cesu8_enclosed_nil rfl rfl]
      refine ⟨.leftBrace, 0x7D :: rest, nextToken_leftBrace numbers _ true, by simp, ?_⟩
      simp only [ecmaBuiltinJsonParseValue, nextToken_rightBrace, parse_ok_bind]
      rfl
  | cons member members =>
      rw [List.map_cons, length_enclosed_cons] at enough
      obtain ⟨fuel, rfl⟩ : ∃ less, fuel = less + 1 := ⟨fuel - 1, by omega⟩
      have smaller : ((member :: members).flatMap fun other =>
          [0x2C] ++ memberText numbers other).length ≤ fuel := by
        rw [← List.map_cons, List.flatMap_map] at enough
        omega
      have parsed := @parseMembers_members numbers fuel rest member members each []
        (by simpa using distinct) smaller
      have closing : Unicode.encode (0x7D : CodeUnit).toNat = [0x7D] := rfl
      rw [List.map_cons, cesu8_enclosed_cons rfl closing, memberText_append]
      refine ⟨.leftBrace, _, nextToken_leftBrace numbers _ true, by simp, ?_⟩
      rw [parseValue_leftBrace (nextToken_string numbers member.1), parsed, List.nil_append]

/-- Every readable tree is read back. -/
theorem Readable.readsAs {json : Json} (readable : json.Readable numbers) :
    json.ReadsAs numbers := by
  induction readable with
  | null =>
      refine @readsAs_of_token numbers .null .null (Nat.succ_pos 3) ?_ (by simp) fun _ _ => rfl
      intro rest _
      exact nextToken_null numbers rest true
  | boolean value =>
      cases value with
      | true =>
          refine @readsAs_of_token numbers (.boolean true) .true (Nat.succ_pos 3) ?_ (by simp)
            fun _ _ => rfl
          intro rest _
          exact nextToken_true numbers rest true
      | false =>
          refine @readsAs_of_token numbers (.boolean false) .false (Nat.succ_pos 4) ?_ (by simp)
            fun _ _ => rfl
          intro rest _
          exact nextToken_false numbers rest true
  | number isFinite readsBack => exact readsAs_number isFinite readsBack
  | string units => exact readsAs_string units
  | array _ ih => exact readsAs_array ih
  | object distinct _ ih => exact readsAs_object distinct ih

/-- The text of a readable tree is a JSON text, and it is parsed to the tree. -/
theorem Readable.parseBuffer {json : Json} (readable : json.Readable numbers) {fuel : ℕ}
    (enough : (json.units numbers).length ≤ fuel) :
    ecmaBuiltinJsonParseBuffer numbers fuel (cesu8 (json.units numbers)) =
      .ok (some json.readBack) := by
  rcases @Readable.readsAs _ _ readable fuel [] enough (.inl rfl) with
    ⟨token, next, scanned, _, parsed⟩
  rw [List.append_nil] at scanned
  simp only [ecmaBuiltinJsonParseBuffer, scanned, parse_ok_bind, parsed]
  rfl

end Json

end Cmsframe
