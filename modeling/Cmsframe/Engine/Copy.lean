import Cmsframe.Engine.Context
import Cmsframe.Engine.Lit

/-!
# Copying a string to a buffer

`jerry_string_to_buffer` with the encoding UTF-8, on a buffer that may be too short. The
text is cut between two characters: what is copied is `fitted`, the UTF-8 form of the
longest beginning of the string that fits.
-/

namespace Cmsframe

open Unicode (CodeUnit codePoints utf8 encode asciiUnits)

/-- The beginning of a sequence of code points that can be encoded in `size` bytes. -/
def fitting (size : ℕ) : List ℕ → List ℕ
  | [] => []
  | codePoint :: rest =>
      if (encode codePoint).length ≤ size then
        codePoint :: fitting (size - (encode codePoint).length) rest
      else
        []

/-- The UTF-8 form of the longest beginning of a string that takes at most `size` bytes. -/
def fitted (size : ℕ) (units : List CodeUnit) : List UInt8 :=
  (fitting size (codePoints units)).flatMap encode

/-- The loop of `lit_convert_cesu8_string_to_utf8_string`, with the bytes written so far. The
length of the string is enough fuel. -/
def convertLoop (utf8Size : ℕ) :
    ℕ → List UInt8 → List UInt8 → Except Fault (List UInt8)
  | _, [], written => .ok written
  | 0, _ :: _, _ => .error .outOfFuel
  | fuel + 1, current :: rest, written =>
      match litReadCodePointFromCesu8 (current :: rest) with
      | none => .error .assertion
      | some (codePoint, readSize) =>
          let encodedSize := if 0x10000 ≤ codePoint then 4 else readSize
          if utf8Size < written.length + encodedSize then
            .ok written
          else if 0x10000 ≤ codePoint then
            match litCodePointToUtf8 codePoint with
            | none => .error .assertion
            | some bytes =>
                convertLoop utf8Size fuel ((current :: rest).drop readSize) (written ++ bytes)
          else
            convertLoop utf8Size fuel ((current :: rest).drop readSize)
              (written ++ (current :: rest).take encodedSize)

/-- `lit_convert_cesu8_string_to_utf8_string`: the bytes written, and the count returned, which
is converted to a byte. -/
def litConvertCesu8StringToUtf8String (cesu8String : List UInt8) (utf8Size : ℕ) :
    Except Fault (List UInt8 × ℕ) := do
  let written ← convertLoop utf8Size cesu8String.length cesu8String []
  return (written, written.length % 2 ^ 8)

/-- `ecma_string_copy_to_buffer` with the encoding UTF-8. -/
def ecmaStringCopyToBuffer (string : EcmaString) (bufferSize : ℕ) :
    Except Fault (List UInt8 × ℕ) :=
  match string with
  | .uint number =>
      -- `ecma_uint32_to_buffer`
      let digits := (Decimal.decimal number).take bufferSize
      .ok (digits, digits.length)
  | _ =>
      if string.bytes.length = string.units.length then
        let copied := string.bytes.take bufferSize
        .ok (copied, copied.length)
      else
        litConvertCesu8StringToUtf8String string.bytes bufferSize

/-- `jerry_string_to_buffer`; nothing is copied of a value that is not a string. -/
def jerryStringToBuffer (value : EcmaValue) (bufferSize : ℕ) : Except Fault (List UInt8 × ℕ) :=
  match value with
  | .string string => ecmaStringCopyToBuffer string bufferSize
  | _ => .ok ([], 0)

section Fitting

theorem fitting_eq_take (size : ℕ) (points : List ℕ) :
    ∃ count, fitting size points = points.take count := by
  induction points generalizing size with
  | nil => exact ⟨0, rfl⟩
  | cons codePoint rest ih =>
      rw [fitting]
      split_ifs with fits
      · rcases ih (size - (encode codePoint).length) with ⟨count, same⟩
        exact ⟨count + 1, by rw [same, List.take_succ_cons]⟩
      · exact ⟨0, rfl⟩

theorem length_fitting_le (size : ℕ) (points : List ℕ) :
    ((fitting size points).flatMap encode).length ≤ size := by
  induction points generalizing size with
  | nil => exact Nat.zero_le _
  | cons codePoint rest ih =>
      rw [fitting]
      split_ifs with fits
      · rw [List.flatMap_cons, List.length_append]
        have bound := ih (size - (encode codePoint).length)
        omega
      · exact Nat.zero_le _

theorem fitting_append (size : ℕ) (left right : List ℕ) :
    fitting size (left ++ right) =
      if (left.flatMap encode).length ≤ size then
        left ++ fitting (size - (left.flatMap encode).length) right
      else
        fitting size left := by
  induction left generalizing size with
  | nil => simp
  | cons codePoint left ih =>
      rw [List.cons_append, fitting, fitting, ih, List.flatMap_cons, List.length_append]
      by_cases fits : (encode codePoint).length ≤ size
      · rw [if_pos fits, if_pos fits]
        by_cases all : (encode codePoint).length + (left.flatMap encode).length ≤ size
        · rw [if_pos all, if_pos (by omega), Nat.sub_sub]
          rfl
        · rw [if_neg all, if_neg (by omega)]
      · rw [if_neg fits, if_neg fits, if_neg (by omega)]

theorem length_fitted_le (size : ℕ) (units : List CodeUnit) :
    (fitted size units).length ≤ size :=
  length_fitting_le size (codePoints units)

/-- What is copied is a beginning of the UTF-8 form, cut between two characters. -/
theorem fitted_eq_take (size : ℕ) (units : List CodeUnit) :
    ∃ count, fitted size units = ((codePoints units).take count).flatMap encode := by
  rcases fitting_eq_take size (codePoints units) with ⟨count, same⟩
  exact ⟨count, by rw [fitted, same]⟩

theorem fitted_prefix_utf8 (size : ℕ) (units : List CodeUnit) :
    fitted size units <+: utf8 units := by
  rcases fitted_eq_take size units with ⟨count, same⟩
  refine ⟨((codePoints units).drop count).flatMap encode, ?_⟩
  rw [same, ← List.flatMap_append, List.take_append_drop, utf8]

end Fitting

section Conversion

/-- One character of the conversion. -/
theorem convertLoop_step (utf8Size : ℕ) {fuel codePoint : ℕ} {bytes tail written : List UInt8}
    (notEmpty : bytes ≠ [])
    (read : litReadCodePointFromCesu8 (bytes ++ tail) = some (codePoint, bytes.length))
    (bound : codePoint ≤ 0x10FFFF) (plain : codePoint < 0x10000 → bytes = encode codePoint) :
    convertLoop utf8Size (fuel + 1) (bytes ++ tail) written =
      if written.length + (encode codePoint).length ≤ utf8Size then
        convertLoop utf8Size fuel tail (written ++ encode codePoint)
      else
        .ok written := by
  rcases List.exists_cons_of_ne_nil notEmpty with ⟨first, rest, rfl⟩
  simp only [List.cons_append] at read ⊢
  simp only [convertLoop, read, litCodePointToUtf8_eq bound]
  rw [← List.cons_append, List.drop_left' rfl]
  by_cases large : 0x10000 ≤ codePoint
  · have four : (encode codePoint).length = 4 := by
      rw [Unicode.encode_of_le_four (by omega) bound]
      rfl
    simp only [if_pos large, four]
    split_ifs <;> first | rfl | omega
  · have same := plain (not_le.mp large)
    simp only [if_neg large, ← same]
    rw [List.take_left' rfl]
    split_ifs <;> first | rfl | omega

/-- One character of the specification. -/
theorem fitted_cons (size : ℕ) {codePoint : ℕ} {units rest : List CodeUnit}
    (points : codePoints units = codePoint :: codePoints rest) :
    fitted size units =
      if (encode codePoint).length ≤ size then
        encode codePoint ++ fitted (size - (encode codePoint).length) rest
      else
        [] := by
  rw [fitted, points, fitting]
  split_ifs <;> rfl

/-- What the conversion does with a string, whatever has been written before. -/
def Converts (utf8Size : ℕ) (units : List CodeUnit) : Prop :=
  ∀ (fuel : ℕ) (written : List UInt8), (Unicode.cesu8 units).length ≤ fuel →
    written.length ≤ utf8Size →
    convertLoop utf8Size fuel (Unicode.cesu8 units) written =
      .ok (written ++ fitted (utf8Size - written.length) units)

theorem Converts.cons {utf8Size codePoint : ℕ} (bytes : List UInt8) {units rest : List CodeUnit}
    (later : Converts utf8Size rest) (points : codePoints units = codePoint :: codePoints rest)
    (split : Unicode.cesu8 units = bytes ++ Unicode.cesu8 rest) (notEmpty : bytes ≠ [])
    (read : litReadCodePointFromCesu8 (bytes ++ Unicode.cesu8 rest) =
      some (codePoint, bytes.length))
    (bound : codePoint ≤ 0x10FFFF) (plain : codePoint < 0x10000 → bytes = encode codePoint) :
    Converts utf8Size units := by
  intro fuel written enough room
  have positive : 0 < bytes.length := List.length_pos_of_ne_nil notEmpty
  rw [split, List.length_append] at enough
  rcases Nat.exists_eq_add_of_lt (Nat.lt_of_lt_of_le positive (by omega : bytes.length ≤ fuel))
    with ⟨left, rfl⟩
  rw [Nat.zero_add, split, convertLoop_step utf8Size notEmpty read bound plain,
    fitted_cons _ points]
  by_cases fits : written.length + (encode codePoint).length ≤ utf8Size
  · have after : (written ++ encode codePoint).length ≤ utf8Size := by
      rw [List.length_append]
      exact fits
    rw [if_pos fits, if_pos (by omega), later _ _ (by omega) after, List.length_append,
      List.append_assoc, Nat.sub_sub]
  · rw [if_neg fits, if_neg (by omega), List.append_nil]

theorem encode_unit_bound (unit : CodeUnit) : unit.toNat ≤ 0x10FFFF :=
  le_trans (Nat.le_of_lt_succ unit.toNat_lt) (by norm_num)

/-- The conversion of a whole string. -/
theorem converts (utf8Size : ℕ) (units : List CodeUnit) : Converts utf8Size units := by
  induction units using Unicode.codePoints.induct with
  | case1 =>
      intro fuel written _ _
      cases fuel <;> simp [convertLoop, fitted, fitting, codePoints]
  | case2 unit =>
      have nothing : Converts utf8Size [] := by
        intro fuel written _ _
        cases fuel <;> simp [convertLoop, fitted, fitting, codePoints]
      have read := litReadCodePointFromCesu8_last unit.toNat_lt
      exact nothing.cons (encode unit.toNat) rfl (by simp) (Unicode.encode_ne_nil _)
        (by simpa using read) (encode_unit_bound unit) fun _ => rfl
  | case3 first second rest pair ih =>
      have read := litReadCodePointFromCesu8_pair pair.1 pair.2 (Unicode.cesu8 rest)
      have points : codePoints (first :: second :: rest) =
          Unicode.joinSurrogates first.toNat second.toNat :: codePoints rest := by
        rw [codePoints, if_pos pair]
      have large := Unicode.joinSurrogates_lower first.toNat second.toNat
      apply ih.cons (encode first.toNat ++ encode second.toNat) points
      · simp
      · simp [Unicode.encode_ne_nil]
      · rw [List.append_assoc, List.length_append]
        exact read
      · exact Unicode.joinSurrogates_upper pair.1 pair.2
      · intro small
        omega
  | case4 first second rest notPair ih =>
      have points : codePoints (first :: second :: rest) =
          first.toNat :: codePoints (second :: rest) := by
        rw [codePoints, if_neg notPair]
      have read : litReadCodePointFromCesu8
          (encode first.toNat ++ Unicode.cesu8 (second :: rest)) =
            some (first.toNat, (encode first.toNat).length) := by
        by_cases isHigh : Unicode.IsHighSurrogate first.toNat
        · exact litReadCodePointFromCesu8_of_not_low first.toNat_lt second.toNat_lt
            (fun isLow => notPair ⟨isHigh, isLow⟩) (Unicode.cesu8 rest)
        · exact litReadCodePointFromCesu8_of_not_high first.toNat_lt isHigh _
      exact ih.cons (encode first.toNat) points rfl (Unicode.encode_ne_nil _) read
        (encode_unit_bound first) fun _ => rfl

theorem length_le_length_cesu8 (units : List CodeUnit) :
    units.length ≤ (Unicode.cesu8 units).length := by
  induction units with
  | nil => exact Nat.zero_le _
  | cons unit units ih =>
      have positive := List.length_pos_of_ne_nil (Unicode.encode_ne_nil unit.toNat)
      rw [Unicode.cesu8_cons, List.length_append, List.length_cons]
      omega

theorem le_of_length_encode {value : ℕ} (one : (encode value).length = 1) : value ≤ 0x7F := by
  by_contra large
  unfold encode at one
  split_ifs at one <;> cases one

/-- A string whose bytes are as many as its code units is ASCII, and cut anywhere. -/
theorem fitted_ascii (size : ℕ) {units : List CodeUnit}
    (ascii : (Unicode.cesu8 units).length = units.length) :
    fitted size units = (Unicode.cesu8 units).take size := by
  induction units generalizing size with
  | nil => simp [fitted, fitting, codePoints]
  | cons unit units ih =>
      have positive := List.length_pos_of_ne_nil (Unicode.encode_ne_nil unit.toNat)
      have atLeast := length_le_length_cesu8 units
      rw [Unicode.cesu8_cons, List.length_append, List.length_cons] at ascii
      have one : (encode unit.toNat).length = 1 := by omega
      have small := le_of_length_encode one
      have notHigh : ¬Unicode.IsHighSurrogate unit.toNat := by
        unfold Unicode.IsHighSurrogate
        omega
      rw [fitted_cons size (Unicode.codePoints_cons_of_not_high notHigh units), one,
        ih (size - 1) (by omega), Unicode.cesu8_cons, Unicode.encode_of_le_one small]
      cases size with
      | zero => rfl
      | succ size => simp

/-- An ASCII text behind a string is cut anywhere. -/
theorem fitted_append_asciiUnits (size : ℕ) (units : List CodeUnit) {bytes : List UInt8}
    (ascii : ∀ byte ∈ bytes, byte.toNat < 0x80) :
    fitted size (units ++ asciiUnits bytes) =
      if (utf8 units).length ≤ size then
        utf8 units ++ bytes.take (size - (utf8 units).length)
      else
        fitted size units := by
  have same : (Unicode.cesu8 (asciiUnits bytes)).length = (asciiUnits bytes).length := by
    rw [Unicode.cesu8_asciiUnits ascii, asciiUnits, List.length_map]
  have cut := fitted_ascii (size - (utf8 units).length) same
  rw [Unicode.cesu8_asciiUnits ascii] at cut
  rw [fitted, Unicode.codePoints_append_asciiUnits units ascii, fitting_append]
  by_cases fits : (utf8 units).length ≤ size
  · rw [if_pos fits, ← cut]
    exact (if_pos fits).symm ▸ List.flatMap_append
  · rw [if_neg fits]
    exact (if_neg fits).symm ▸ rfl

/-- What is copied, for every representation of a string. -/
theorem ecmaStringCopyToBuffer_eq (string : EcmaString) {bufferSize : ℕ}
    (small : bufferSize < 2 ^ 8) :
    ecmaStringCopyToBuffer string bufferSize =
      .ok (fitted bufferSize string.units, (fitted bufferSize string.units).length) := by
  have general : (if string.bytes.length = string.units.length then
        .ok (string.bytes.take bufferSize, (string.bytes.take bufferSize).length)
      else
        litConvertCesu8StringToUtf8String string.bytes bufferSize : Except Fault _) =
      .ok (fitted bufferSize string.units, (fitted bufferSize string.units).length) := by
    split_ifs with ascii
    · rw [fitted_ascii bufferSize ascii]
      rfl
    · have converted := converts bufferSize string.units string.bytes.length [] (le_refl _)
        (Nat.zero_le _)
      have bound := length_fitted_le bufferSize string.units
      rw [List.nil_append, List.length_nil, Nat.sub_zero] at converted
      rw [EcmaString.bytes] at converted ⊢
      rw [litConvertCesu8StringToUtf8String, converted, ← Nat.mod_eq_of_lt
        (lt_of_le_of_lt bound small)]
      rfl
  cases string with
  | uint number =>
      have bytes : (EcmaString.uint number).bytes = Decimal.decimal number :=
        Unicode.cesu8_asciiUnits (Decimal.ascii_decimal number)
      have ascii : (EcmaString.uint number).bytes.length =
          (EcmaString.uint number).units.length := by
        rw [bytes, EcmaString.units, asciiUnits, List.length_map]
      rw [if_pos ascii, bytes] at general
      exact general
  | magic text => exact general
  | heap address text => exact general

end Conversion

end Cmsframe
