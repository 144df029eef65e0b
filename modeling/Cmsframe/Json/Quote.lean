import Cmsframe.Engine.Lit
import Cmsframe.Engine.Value

/-!
# Quoting a JSON string

`ecma_builtin_json_quote` walks over the CESU-8 bytes of a string and copies runs
of regular bytes. Surrogate pairs stay in the run; quotes, backslashes, control
characters and lone surrogates end it and are replaced by escapes.
-/

namespace Cmsframe

open Unicode

/-- A lowercase hexadecimal digit. -/
def hexDigit (value : ℕ) : UInt8 :=
  UInt8.ofNat (value + if value ≤ 9 then 0x30 else 0x61 - 10)

/-- `lit_char_unicode_escape`. -/
def litCharUnicodeEscape (unit : ℕ) : List UInt8 :=
  [0x5C, 0x75, hexDigit (unit >>> 12 &&& 0xF), hexDigit (unit >>> 8 &&& 0xF),
    hexDigit (unit >>> 4 &&& 0xF), hexDigit (unit &&& 0xF)]

/-- The `switch` over control characters. -/
def escapeControl (unit : ℕ) : List UInt8 :=
  if unit = 0x08 then [0x5C, 0x62]
  else if unit = 0x0C then [0x5C, 0x66]
  else if unit = 0x0A then [0x5C, 0x6E]
  else if unit = 0x0D then [0x5C, 0x72]
  else if unit = 0x09 then [0x5C, 0x74]
  else litCharUnicodeEscape unit

/-- The loop of `ecma_builtin_json_quote`. `regular` is what lies between
`regular_str_start_p` and `str_p`, and `rest` what lies between `str_p` and
`str_end_p`; every iteration consumes at least one byte, so the length of the
string is enough fuel. -/
def quoteLoop (fuel : ℕ) (builder regular rest : List UInt8) : Option (List UInt8) :=
  match fuel, rest with
  | _, [] => some (builder ++ regular)
  | 0, _ :: _ => none
  | fuel + 1, _ :: _ =>
      match litReadCodeUnitFromCesu8 rest with
      | none => none
      | some (unit, size) =>
          let regular := regular ++ rest.take size
          let rest := rest.drop size
          if IsHighSurrogate unit then
            match rest with
            | [] => quoteLoop fuel (builder ++ regular.take (regular.length - 3) ++
                escapeControl unit) [] rest
            | _ :: _ =>
                match litReadCodeUnitFromCesu8 rest with
                | none => none
                | some (nextUnit, _) =>
                    if IsLowSurrogate nextUnit then
                      quoteLoop fuel builder (regular ++ rest.take 3) (rest.drop 3)
                    else
                      quoteLoop fuel (builder ++ regular.take (regular.length - 3) ++
                        escapeControl unit) [] rest
          else if IsLowSurrogate unit then
            quoteLoop fuel (builder ++ regular.take (regular.length - 3) ++
              escapeControl unit) [] rest
          else if unit = 0x5C ∨ unit = 0x22 then
            quoteLoop fuel (builder ++ regular.take (regular.length - 1) ++
              [0x5C, UInt8.ofNat unit]) [] rest
          else if unit < 0x20 then
            quoteLoop fuel (builder ++ regular.take (regular.length - 1) ++
              escapeControl unit) [] rest
          else
            quoteLoop fuel builder regular rest

/-- `ecma_builtin_json_quote`. -/
def ecmaBuiltinJsonQuote (builder : List UInt8) (string : EcmaString) :
    Option (List UInt8) :=
  (quoteLoop string.bytes.length (builder ++ [0x22]) [] string.bytes).map (· ++ [0x22])

/-- What becomes of one code unit that is not part of a surrogate pair. -/
def escapeUnit (unit : CodeUnit) : List CodeUnit :=
  if IsHighSurrogate unit.toNat ∨ IsLowSurrogate unit.toNat then
    asciiUnits (escapeControl unit.toNat)
  else if unit.toNat = 0x5C ∨ unit.toNat = 0x22 then
    [0x5C, unit]
  else if unit.toNat < 0x20 then
    asciiUnits (escapeControl unit.toNat)
  else
    [unit]

/-- The code units of a JSON string literal, without the quotes around it. -/
def escapeUnits : List CodeUnit → List CodeUnit
  | [] => []
  | [unit] => escapeUnit unit
  | first :: second :: rest =>
      if IsHighSurrogate first.toNat ∧ IsLowSurrogate second.toNat then
        first :: second :: escapeUnits rest
      else
        escapeUnit first ++ escapeUnits (second :: rest)

private theorem hexDigit_bounds (value : ℕ) :
    0x20 ≤ (hexDigit (value &&& 0xF)).toNat ∧ (hexDigit (value &&& 0xF)).toNat < 0x80 := by
  have small : value &&& 0xF < 16 := by
    have masked := Nat.and_two_pow_sub_one_eq_mod value 4
    norm_num at masked
    omega
  unfold hexDigit
  simp only [UInt8.toNat_ofNat']
  split_ifs <;> omega

/-- Escapes are made of ASCII characters, without control characters. -/
theorem escapeControl_bounds (unit : ℕ) :
    ∀ byte ∈ escapeControl unit, 0x20 ≤ byte.toNat ∧ byte.toNat < 0x80 := by
  have first := hexDigit_bounds (unit >>> 12)
  have second := hexDigit_bounds (unit >>> 8)
  have third := hexDigit_bounds (unit >>> 4)
  have fourth := hexDigit_bounds unit
  intro byte mem
  unfold escapeControl litCharUnicodeEscape at mem
  split_ifs at mem <;> simp only [List.mem_cons, List.not_mem_nil, or_false] at mem
  · rcases mem with rfl | rfl <;> decide
  · rcases mem with rfl | rfl <;> decide
  · rcases mem with rfl | rfl <;> decide
  · rcases mem with rfl | rfl <;> decide
  · rcases mem with rfl | rfl <;> decide
  · rcases mem with rfl | rfl | rfl | rfl | rfl | rfl
    · decide
    · decide
    · exact first
    · exact second
    · exact third
    · exact fourth

theorem escapeControl_ascii (unit : ℕ) : ∀ byte ∈ escapeControl unit, byte.toNat < 0x80 :=
  fun byte mem => (escapeControl_bounds unit byte mem).2

private theorem encode_surrogate_length {unit : ℕ}
    (surrogate : IsHighSurrogate unit ∨ IsLowSurrogate unit) : (encode unit).length = 3 := by
  unfold IsHighSurrogate IsLowSurrogate at surrogate
  rw [encode_of_le_three (by omega) (by omega)]
  rfl

private theorem take_run (regular tail : List UInt8) :
    (regular ++ tail).take ((regular ++ tail).length - tail.length) = regular := by
  simp

section Loop

variable {fuel : ℕ} {builder regular : List UInt8} {unit : CodeUnit}

private theorem quoteLoop_step (rest : List UInt8) :
    quoteLoop (fuel + 1) builder regular (encode unit.toNat ++ rest) =
      (let run := regular ++ encode unit.toNat
       if IsHighSurrogate unit.toNat then
        match rest with
        | [] => quoteLoop fuel (builder ++ regular ++ escapeControl unit.toNat) [] rest
        | _ :: _ =>
            match litReadCodeUnitFromCesu8 rest with
            | none => none
            | some (nextUnit, _) =>
                if IsLowSurrogate nextUnit then
                  quoteLoop fuel builder (run ++ rest.take 3) (rest.drop 3)
                else
                  quoteLoop fuel (builder ++ regular ++ escapeControl unit.toNat) [] rest
      else if IsLowSurrogate unit.toNat then
        quoteLoop fuel (builder ++ regular ++ escapeControl unit.toNat) [] rest
      else if unit.toNat = 0x5C ∨ unit.toNat = 0x22 then
        quoteLoop fuel (builder ++ regular ++ [0x5C, UInt8.ofNat unit.toNat]) [] rest
      else if unit.toNat < 0x20 then
        quoteLoop fuel (builder ++ regular ++ escapeControl unit.toNat) [] rest
      else
        quoteLoop fuel builder run rest) := by
  have read := litReadCodeUnitFromCesu8_encode unit.toNat_lt rest
  have cut : ∀ size, (encode unit.toNat).length = size →
      (regular ++ encode unit.toNat).take ((regular ++ encode unit.toNat).length - size) =
        regular := by
    intro size sized
    rw [← sized]
    exact take_run regular (encode unit.toNat)
  obtain ⟨head, tail, shape⟩ := List.exists_cons_of_ne_nil (encode_ne_nil unit.toNat)
  have unfolded : encode unit.toNat ++ rest = head :: (tail ++ rest) := by
    rw [shape]
    rfl
  rw [unfolded, quoteLoop, ← unfolded, read]
  simp only [List.take_left', List.drop_left']
  by_cases isHigh : IsHighSurrogate unit.toNat
  · simp only [isHigh, if_true, cut 3 (encode_surrogate_length (.inl isHigh))]
  · by_cases isLow : IsLowSurrogate unit.toNat
    · simp only [isHigh, isLow, if_true, if_false, cut 3 (encode_surrogate_length (.inr isLow))]
    · simp only [isHigh, isLow, if_false]
      by_cases quoted : unit.toNat = 0x5C ∨ unit.toNat = 0x22
      · have short : (encode unit.toNat).length = 1 := by
          rw [encode_of_le_one (by omega)]
          rfl
        simp only [quoted, if_true, cut 1 short]
      · by_cases control : unit.toNat < 0x20
        · have short : (encode unit.toNat).length = 1 := by
            rw [encode_of_le_one (by omega)]
            rfl
          simp only [quoted, control, if_true, if_false, cut 1 short]
        · simp only [quoted, control, if_false]

/-- A code unit that no low surrogate follows is escaped by itself. -/
private theorem quoteLoop_alone {rest text : List UInt8}
    (noPair : IsHighSurrogate unit.toNat → rest = [] ∨
      ∃ next : ℕ, ∃ tail, rest = encode next ++ tail ∧ next < 0x10000 ∧ ¬IsLowSurrogate next)
    (remaining : ∀ builder regular,
      quoteLoop fuel builder regular rest = some (builder ++ regular ++ text)) :
    quoteLoop (fuel + 1) builder regular (encode unit.toNat ++ rest) =
      some (builder ++ regular ++ cesu8 (escapeUnit unit) ++ text) := by
  have escaped : cesu8 (asciiUnits (escapeControl unit.toNat)) = escapeControl unit.toNat :=
    cesu8_asciiUnits (escapeControl_ascii unit.toNat)
  rw [quoteLoop_step]
  by_cases isHigh : IsHighSurrogate unit.toNat
  · simp only [escapeUnit, isHigh, true_or, if_true, escaped]
    rcases noPair isHigh with rfl | ⟨next, tail, rfl, bound, notLow⟩
    · simp only [remaining, List.append_nil]
    · obtain ⟨head, others, shape⟩ := List.exists_cons_of_ne_nil (encode_ne_nil next)
      have unfolded : encode next ++ tail = head :: (others ++ tail) := by
        rw [shape]
        rfl
      have read := litReadCodeUnitFromCesu8_encode bound tail
      rw [unfolded] at read remaining ⊢
      simp only [read, notLow, if_false, remaining, List.append_nil]
  · by_cases isLow : IsLowSurrogate unit.toNat
    · simp only [escapeUnit, isHigh, isLow, or_true, if_true, if_false, escaped,
        remaining, List.append_nil]
    · simp only [escapeUnit, isHigh, isLow, or_self, if_false]
      by_cases quoted : unit.toNat = 0x5C ∨ unit.toNat = 0x22
      · have backslash : ((0x5C : UInt16).toNat : ℕ) = 0x5C := rfl
        have encodedBackslash : encode 0x5C = [0x5C] := rfl
        have encodedUnit : encode unit.toNat = [UInt8.ofNat unit.toNat] :=
          encode_of_le_one (by omega)
        simp [quoted, remaining, backslash, encodedBackslash, encodedUnit]
      · by_cases control : unit.toNat < 0x20
        · simp only [quoted, control, if_true, if_false, escaped, remaining,
            List.append_nil]
        · simp [quoted, control, remaining]

end Loop

/-- The quoting loop never reads past the string and appends the escaped form of it. -/
theorem quoteLoop_eq (units : List CodeUnit) :
    ∀ {fuel : ℕ}, (cesu8 units).length ≤ fuel → ∀ builder regular : List UInt8,
      quoteLoop fuel builder regular (cesu8 units) =
        some (builder ++ regular ++ cesu8 (escapeUnits units)) := by
  induction units using escapeUnits.induct with
  | case1 =>
      intro fuel _ builder regular
      cases fuel <;> simp [quoteLoop, escapeUnits]
  | case2 unit =>
      intro fuel enough builder regular
      simp only [cesu8_cons, cesu8_nil, List.length_append] at enough
      have notEmpty : 0 < (encode unit.toNat).length :=
        List.length_pos_of_ne_nil (encode_ne_nil _)
      obtain ⟨fuel, rfl⟩ : ∃ less, fuel = less + 1 := ⟨fuel - 1, by omega⟩
      have stop : ∀ builder regular, quoteLoop fuel builder regular [] =
          some (builder ++ regular ++ []) := by
        intro builder regular
        cases fuel <;> simp [quoteLoop]
      rw [cesu8_cons, cesu8_nil, quoteLoop_alone (fun _ => .inl rfl) stop, List.append_nil]
      rfl
  | case3 first second rest pair ih =>
      intro fuel enough builder regular
      have firstLength := encode_surrogate_length (.inl pair.1)
      have secondLength := encode_surrogate_length (.inr pair.2)
      simp only [cesu8_cons, List.length_append] at enough
      obtain ⟨fuel, rfl⟩ : ∃ less, fuel = less + 1 := ⟨fuel - 1, by omega⟩
      have read := litReadCodeUnitFromCesu8_encode second.toNat_lt (cesu8 rest)
      obtain ⟨head, tail, shape⟩ := List.exists_cons_of_ne_nil (encode_ne_nil second.toNat)
      have unfolded : encode second.toNat ++ cesu8 rest = head :: (tail ++ cesu8 rest) := by
        rw [shape]
        rfl
      rw [cesu8_cons, cesu8_cons, quoteLoop_step]
      simp only [pair.1, if_true, unfolded]
      rw [← unfolded, read]
      simp only [pair.2, if_true, List.take_left' secondLength, List.drop_left' secondLength]
      rw [ih (by omega)]
      simp [escapeUnits, pair]
  | case4 first second rest noPair ih =>
      intro fuel enough builder regular
      have notEmpty : 0 < (encode first.toNat).length :=
        List.length_pos_of_ne_nil (encode_ne_nil _)
      rw [cesu8_cons] at enough
      simp only [List.length_append] at enough
      obtain ⟨fuel, rfl⟩ : ∃ less, fuel = less + 1 := ⟨fuel - 1, by omega⟩
      have tail := fun builder regular => ih (show _ ≤ fuel by omega) builder regular
      rw [cesu8_cons, quoteLoop_alone _ tail]
      · simp [escapeUnits, noPair]
      · intro isHigh
        refine .inr ⟨second.toNat, cesu8 rest, rfl, second.toNat_lt, ?_⟩
        intro isLow
        exact noPair ⟨isHigh, isLow⟩

/-- `ecma_builtin_json_quote` appends the JSON string literal of the string. -/
theorem ecmaBuiltinJsonQuote_eq (builder : List UInt8) (string : EcmaString) :
    ecmaBuiltinJsonQuote builder string =
      some (builder ++ ([0x22] ++ cesu8 (escapeUnits string.units) ++ [0x22])) := by
  simp [ecmaBuiltinJsonQuote, EcmaString.bytes, quoteLoop_eq _ le_rfl]

end Cmsframe
