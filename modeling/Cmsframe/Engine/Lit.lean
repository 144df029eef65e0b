import Cmsframe.Library.Unicode

/-!
# Literal strings

The functions of `lit-strings.c` that read code units and code points off
CESU-8 bytes and that write code points as UTF-8. A read past the end of the
buffer and a failing assertion are both `none`. On the bytes of an engine string
neither happens, and the functions compute the encodings of
`Cmsframe.Library.Unicode`.
-/

namespace Cmsframe

open Unicode

/-- `lit_read_code_unit_from_cesu8`: the code unit at the start of the buffer and the
number of bytes it occupies. -/
def litReadCodeUnitFromCesu8 (buffer : List UInt8) : Option (ℕ × ℕ) :=
  match buffer with
  | [] => none
  | first :: rest =>
      let c := first.toNat
      if c &&& 0x80 = 0x00 then
        some (c &&& 0x7F, 1)
      else if c &&& 0xE0 = 0xC0 then
        match rest with
        | second :: _ => some ((c &&& 0x1F) <<< 6 ||| (second.toNat &&& 0x3F), 2)
        | [] => none
      else if c &&& 0xF0 = 0xE0 then
        match rest with
        | second :: third :: _ =>
            some (((c &&& 0x0F) <<< 6 ||| (second.toNat &&& 0x3F)) <<< 6 |||
              (third.toNat &&& 0x3F), 3)
        | _ => none
      else
        none

/-- `lit_convert_surrogate_pair_to_code_point`. -/
def litConvertSurrogatePairToCodePoint (high low : ℕ) : ℕ :=
  ((high - 0xD800) <<< 10 + 0x10000) ||| (low - 0xDC00)

/-- `lit_read_code_point_from_cesu8`. -/
def litReadCodePointFromCesu8 (buffer : List UInt8) : Option (ℕ × ℕ) :=
  match litReadCodeUnitFromCesu8 buffer with
  | none => none
  | some (unit, size) =>
      if buffer.length < size then
        none
      else if IsHighSurrogate unit ∧ size < buffer.length then
        match litReadCodeUnitFromCesu8 (buffer.drop size) with
        | none => none
        | some (nextUnit, nextSize) =>
            if IsLowSurrogate nextUnit then
              if buffer.length < size + nextSize then
                none
              else
                some (litConvertSurrogatePairToCodePoint unit nextUnit, size + nextSize)
            else
              some (unit, size)
      else
        some (unit, size)

/-- `lit_code_point_to_utf8`. -/
def litCodePointToUtf8 (codePoint : ℕ) : Option (List UInt8) :=
  if codePoint ≤ 0x7F then
    some [UInt8.ofNat codePoint]
  else if codePoint ≤ 0x7FF then
    some [UInt8.ofNat (0xC0 ||| (codePoint >>> 6 &&& 0x1F)),
      UInt8.ofNat (0x80 ||| (codePoint &&& 0x3F))]
  else if codePoint ≤ 0xFFFF then
    some [UInt8.ofNat (0xE0 ||| (codePoint >>> 6 >>> 6 &&& 0x0F)),
      UInt8.ofNat (0x80 ||| (codePoint >>> 6 &&& 0x3F)),
      UInt8.ofNat (0x80 ||| (codePoint &&& 0x3F))]
  else if codePoint ≤ 0x10FFFF then
    some [UInt8.ofNat (0xF0 ||| (codePoint >>> 6 >>> 6 >>> 6 &&& 0x07)),
      UInt8.ofNat (0x80 ||| (codePoint >>> 6 >>> 6 &&& 0x3F)),
      UInt8.ofNat (0x80 ||| (codePoint >>> 6 &&& 0x3F)),
      UInt8.ofNat (0x80 ||| (codePoint &&& 0x3F))]
  else
    none

/-- `lit_code_point_to_cesu8_bytes`. -/
def litCodePointToCesu8Bytes (codePoint : ℕ) : Option (List UInt8) :=
  if codePoint < 0x80 then
    some [UInt8.ofNat codePoint]
  else if codePoint < 0x800 then
    some [UInt8.ofNat (0xC0 ||| (codePoint >>> 6 &&& 0x1F)),
      UInt8.ofNat (0x80 ||| (codePoint &&& 0x3F))]
  else if codePoint < 0x10000 then
    some [UInt8.ofNat (0xE0 ||| (codePoint >>> 12 &&& 0x0F)),
      UInt8.ofNat (0x80 ||| (codePoint >>> 6 &&& 0x3F)),
      UInt8.ofNat (0x80 ||| (codePoint &&& 0x3F))]
  else if codePoint ≤ 0x10FFFF then
    let rest := codePoint - 0x10000
    some [UInt8.ofNat (0xE0 ||| 0x0D), UInt8.ofNat (0x80 ||| 0x20 ||| (rest >>> 16 &&& 0x0F)),
      UInt8.ofNat (0x80 ||| (rest >>> 10 &&& 0x3F)), UInt8.ofNat (0xE0 ||| 0x0D),
      UInt8.ofNat (0x80 ||| 0x30 ||| (rest >>> 6 &&& 0x0F)),
      UInt8.ofNat (0x80 ||| (rest &&& 0x3F))]
  else
    none

/-- `lit_read_code_point_from_utf8`: the code point at the start of the buffer and the
number of bytes it occupies. -/
def litReadCodePointFromUtf8 (buffer : List UInt8) : Option (ℕ × ℕ) :=
  match buffer with
  | [] => none
  | first :: rest =>
      let c := first.toNat
      let extend (value : ℕ) (byte : UInt8) : ℕ := value <<< 6 ||| (byte.toNat &&& 0x3F)
      let read (start bytesCount : ℕ) : Option (ℕ × ℕ) :=
        if buffer.length < bytesCount then
          none
        else
          some ((rest.take (bytesCount - 1)).foldl extend start, bytesCount)
      if c &&& 0x80 = 0x00 then
        some (c &&& 0x7F, 1)
      else if c &&& 0xE0 = 0xC0 then
        read (c &&& 0x1F) 2
      else if c &&& 0xF0 = 0xE0 then
        read (c &&& 0x0F) 3
      else if c &&& 0xF8 = 0xF0 then
        read (c &&& 0x07) 4
      else
        none

/-- Whether a pair of surrogates in three bytes each goes on here: `idx + 3 <= end` and the
tests of the next two bytes in `lit_is_valid_utf8_string`. -/
def startsWithLowSurrogate : List UInt8 → Bool
  | first :: second :: _ :: _ => first = 0xED ∧ 0xB0 ≤ second ∧ second ≤ 0xBF
  | _ => false

/-- `lit_is_valid_utf8_string`. -/
def litIsValidUtf8String (isStrict : Bool) : List UInt8 → Bool
  | [] => true
  | first :: rest =>
      if first < 0x80 then
        litIsValidUtf8String isStrict rest
      else if first < 0xC2 then
        false
      else
        match rest with
        | [] => false
        | second :: rest =>
            if second &&& 0xC0 ≠ 0x80 then
              false
            else if first < 0xE0 then
              litIsValidUtf8String isStrict rest
            else
              match rest with
              | [] => false
              | third :: rest =>
                  if third &&& 0xC0 ≠ 0x80 then
                    false
                  else if first < 0xF0 then
                    if first = 0xE0 ∧ second &&& 0xE0 = 0x80 then
                      false
                    else if isStrict ∧ first = 0xED ∧ 0xA0 ≤ second ∧ second ≤ 0xAF ∧
                        startsWithLowSurrogate rest then
                      false
                    else
                      litIsValidUtf8String isStrict rest
                  else
                    match rest with
                    | [] => false
                    | fourth :: rest =>
                        if 0xF4 < first ∨ first = 0xF0 ∧ second ≤ 0x80 ∨
                            first = 0xF4 ∧ 0x8F < second ∨ fourth &&& 0xC0 ≠ 0x80 then
                          false
                        else
                          litIsValidUtf8String isStrict rest

/-- `jerry_validate_string` with `JERRY_ENCODING_UTF8`. -/
def jerryValidateString (buffer : List UInt8) : Bool := litIsValidUtf8String true buffer

/-- `lit_char_is_hex_digit`. -/
def litCharIsHexDigit (character : UInt8) : Bool :=
  (0x30 ≤ character.toNat && character.toNat ≤ 0x39) ||
    (0x61 ≤ character.toNat ||| 0x20 && character.toNat ||| 0x20 ≤ 0x66)

/-- `lit_char_hex_to_int`. -/
def litCharHexToInt (character : UInt8) : ℕ :=
  if 0x30 ≤ character.toNat ∧ character.toNat ≤ 0x39 then
    character.toNat - 0x30
  else
    character.toNat % 32 + (10 - 0x61 % 32)

/-- The loop of `lit_char_hex_lookup`. -/
def hexLookup (value : ℕ) : List UInt8 → Option ℕ
  | [] => some value
  | character :: rest =>
      if litCharIsHexDigit character then
        hexLookup (value <<< 4 + litCharHexToInt character) rest
      else
        none

/-- `lit_char_hex_lookup`; `none` is `UINT32_MAX`. -/
def litCharHexLookup (buffer : List UInt8) (lookup : ℕ) : Option ℕ :=
  if buffer.length < lookup then none else hexLookup 0 (buffer.take lookup)

private theorem byte_markers : ∀ byte : Fin 256,
    (byte.val &&& 0x80 = 0x00 ↔ byte.val < 0x80) ∧
      (byte.val &&& 0xE0 = 0xC0 ↔ 0xC0 ≤ byte.val ∧ byte.val < 0xE0) ∧
      (byte.val &&& 0xF0 = 0xE0 ↔ 0xE0 ≤ byte.val ∧ byte.val < 0xF0) := by
  decide +kernel

private theorem and_0x7F (value : ℕ) : value &&& 0x7F = value % 128 :=
  Nat.and_two_pow_sub_one_eq_mod value 7

private theorem and_0x3F (value : ℕ) : value &&& 0x3F = value % 64 :=
  Nat.and_two_pow_sub_one_eq_mod value 6

private theorem and_0x1F (value : ℕ) : value &&& 0x1F = value % 32 :=
  Nat.and_two_pow_sub_one_eq_mod value 5

private theorem and_0x0F (value : ℕ) : value &&& 0x0F = value % 16 :=
  Nat.and_two_pow_sub_one_eq_mod value 4

private theorem and_0x07 (value : ℕ) : value &&& 0x07 = value % 8 :=
  Nat.and_two_pow_sub_one_eq_mod value 3

private theorem shift_or (value low : ℕ) : value <<< 6 ||| low % 64 = value * 64 + low % 64 := by
  rw [← Nat.shiftLeft_add_eq_or_of_lt (Nat.mod_lt low (by norm_num)), Nat.shiftLeft_eq]

/-- Setting a byte marker whose low bits are clear adds it. -/
private theorem marker_or (marker bits : ℕ) {low : ℕ} (small : low < 2 ^ bits) :
    2 ^ bits * marker ||| low = 2 ^ bits * marker + low :=
  (Nat.two_pow_add_eq_or_of_lt small marker).symm

private theorem extra_marker (value : ℕ) : 0x80 ||| value % 64 = value % 64 + 0x80 := by
  have set := marker_or 2 6 (Nat.mod_lt value (show 0 < 2 ^ 6 by norm_num))
  norm_num at set
  omega

private theorem two_marker (value : ℕ) : 0xC0 ||| value % 32 = value % 32 + 0xC0 := by
  have set := marker_or 6 5 (Nat.mod_lt value (show 0 < 2 ^ 5 by norm_num))
  norm_num at set
  omega

private theorem three_marker (value : ℕ) : 0xE0 ||| value % 16 = value % 16 + 0xE0 := by
  have set := marker_or 14 4 (Nat.mod_lt value (show 0 < 2 ^ 4 by norm_num))
  norm_num at set
  omega

private theorem four_marker (value : ℕ) : 0xF0 ||| value % 8 = value % 8 + 0xF0 := by
  have set := marker_or 30 3 (Nat.mod_lt value (show 0 < 2 ^ 3 by norm_num))
  norm_num at set
  omega

theorem litReadCodeUnitFromCesu8_encode {unit : ℕ} (bound : unit < 0x10000)
    (tail : List UInt8) :
    litReadCodeUnitFromCesu8 (encode unit ++ tail) = some (unit, (encode unit).length) := by
  by_cases one : unit ≤ 0x7F
  · have marker := byte_markers ⟨unit, by omega⟩
    have value : (UInt8.ofNat unit).toNat = unit := by
      simp only [UInt8.toNat_ofNat']
      omega
    rw [encode_of_le_one one]
    simp only [List.cons_append, List.nil_append, litReadCodeUnitFromCesu8, value]
    rw [if_pos (marker.1.mpr (by simpa using (by omega : unit < 0x80))), and_0x7F]
    simp
    omega
  · by_cases two : unit ≤ 0x7FF
    · have value : (UInt8.ofNat (unit / 64 + 0xC0)).toNat = unit / 64 + 0xC0 := by
        simp only [UInt8.toNat_ofNat']
        omega
      have last : (UInt8.ofNat (unit % 64 + 0x80)).toNat = unit % 64 + 0x80 := by
        simp only [UInt8.toNat_ofNat']
        omega
      have marker := byte_markers ⟨unit / 64 + 0xC0, by omega⟩
      simp only at marker
      rw [encode_of_le_two (by omega) two]
      simp only [List.cons_append, List.nil_append, litReadCodeUnitFromCesu8, value, last]
      rw [if_neg (by rw [marker.1]; omega), if_pos (by rw [marker.2.1]; omega), and_0x1F,
        and_0x3F, shift_or]
      simp only [List.length_cons, List.length_nil, Option.some.injEq, Prod.mk.injEq,
        and_true]
      omega
    · have value : (UInt8.ofNat (unit / 4096 + 0xE0)).toNat = unit / 4096 + 0xE0 := by
        simp only [UInt8.toNat_ofNat']
        omega
      have middle : (UInt8.ofNat (unit / 64 % 64 + 0x80)).toNat = unit / 64 % 64 + 0x80 := by
        simp only [UInt8.toNat_ofNat']
        omega
      have last : (UInt8.ofNat (unit % 64 + 0x80)).toNat = unit % 64 + 0x80 := by
        simp only [UInt8.toNat_ofNat']
        omega
      have marker := byte_markers ⟨unit / 4096 + 0xE0, by omega⟩
      simp only at marker
      rw [encode_of_le_three (by omega) (by omega)]
      simp only [List.cons_append, List.nil_append, litReadCodeUnitFromCesu8, value, middle,
        last]
      rw [if_neg (by rw [marker.1]; omega), if_neg (by rw [marker.2.1]; omega),
        if_pos (by rw [marker.2.2]; omega), and_0x0F, and_0x3F, and_0x3F, shift_or, shift_or]
      simp only [List.length_cons, List.length_nil, Option.some.injEq, Prod.mk.injEq,
        and_true]
      omega

theorem litConvertSurrogatePairToCodePoint_eq (high : ℕ) {low : ℕ}
    (isLow : IsLowSurrogate low) :
    litConvertSurrogatePairToCodePoint high low = joinSurrogates high low := by
  unfold IsLowSurrogate at isLow
  have shifted : (high - 0xD800) <<< 10 + 0x10000 = 2 ^ 10 * (high - 0xD800 + 64) := by
    rw [Nat.shiftLeft_eq]
    omega
  have small : low - 0xDC00 < 2 ^ 10 := by omega
  have set := marker_or (high - 0xD800 + 64) 10 small
  unfold litConvertSurrogatePairToCodePoint joinSurrogates
  rw [shifted]
  omega

theorem litReadCodePointFromCesu8_of_not_high {unit : ℕ} (bound : unit < 0x10000)
    (notHigh : ¬IsHighSurrogate unit) (tail : List UInt8) :
    litReadCodePointFromCesu8 (encode unit ++ tail) = some (unit, (encode unit).length) := by
  simp [litReadCodePointFromCesu8, litReadCodeUnitFromCesu8_encode bound, notHigh]

theorem litReadCodePointFromCesu8_last {unit : ℕ} (bound : unit < 0x10000) :
    litReadCodePointFromCesu8 (encode unit) = some (unit, (encode unit).length) := by
  have read := litReadCodeUnitFromCesu8_encode bound []
  rw [List.append_nil] at read
  simp [litReadCodePointFromCesu8, read]

theorem litReadCodePointFromCesu8_of_not_low {unit next : ℕ} (bound : unit < 0x10000)
    (nextBound : next < 0x10000) (notLow : ¬IsLowSurrogate next) (tail : List UInt8) :
    litReadCodePointFromCesu8 (encode unit ++ (encode next ++ tail)) =
      some (unit, (encode unit).length) := by
  simp [litReadCodePointFromCesu8, litReadCodeUnitFromCesu8_encode bound,
    litReadCodeUnitFromCesu8_encode nextBound, notLow]

theorem litReadCodePointFromCesu8_pair {high low : ℕ} (isHigh : IsHighSurrogate high)
    (isLow : IsLowSurrogate low) (tail : List UInt8) :
    litReadCodePointFromCesu8 (encode high ++ (encode low ++ tail)) =
      some (joinSurrogates high low, (encode high).length + (encode low).length) := by
  have bound : high < 0x10000 := by
    unfold IsHighSurrogate at isHigh
    omega
  have nextBound : low < 0x10000 := by
    unfold IsLowSurrogate at isLow
    omega
  have notEmpty : 0 < (encode low).length := List.length_pos_of_ne_nil (encode_ne_nil low)
  simp [litReadCodePointFromCesu8, litReadCodeUnitFromCesu8_encode bound,
    litReadCodeUnitFromCesu8_encode nextBound, isHigh, isLow, notEmpty,
    litConvertSurrogatePairToCodePoint_eq]

/-- A code unit is written as its CESU-8 bytes. -/
theorem litCodePointToCesu8Bytes_unit {unit : ℕ} (bound : unit < 0x10000) :
    litCodePointToCesu8Bytes unit = some (encode unit) := by
  have six : unit >>> 6 = unit / 64 := Nat.shiftRight_eq_div_pow unit 6
  have twelve : unit >>> 12 = unit / 4096 := Nat.shiftRight_eq_div_pow unit 12
  simp only [litCodePointToCesu8Bytes, encode, and_0x0F, and_0x1F, and_0x3F, six, twelve,
    extra_marker, two_marker, three_marker]
  split_ifs <;> first | rfl | omega

/-- Writing a code point never fails its assertions and is the encoding. -/
theorem litCodePointToUtf8_eq {codePoint : ℕ} (bound : codePoint ≤ 0x10FFFF) :
    litCodePointToUtf8 codePoint = some (encode codePoint) := by
  have shift : ∀ value, value >>> 6 = value / 64 := fun value => Nat.shiftRight_eq_div_pow value 6
  simp only [litCodePointToUtf8, encode, and_0x07, and_0x0F, and_0x1F, and_0x3F, shift,
    Nat.div_div_eq_div_mul, extra_marker, two_marker, three_marker, four_marker]
  split_ifs <;> simp

end Cmsframe
