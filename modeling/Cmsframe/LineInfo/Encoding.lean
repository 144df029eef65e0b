import Mathlib.Algebra.Order.Ring.Nat
import Mathlib.Tactic.Common
import Cmsframe.Library.Quantity

/-!
# Numbers in the line information

Two encodings of 32-bit numbers: the one for larger values is a quantity of seven bits a
byte, the one for smaller values is a single byte whenever it can be. Lines and columns are
stored as differences, whose lowest bit is their direction. Reading past the end of the
bytes gives no result.
-/

namespace Cmsframe

/-- `ECMA_LINE_INFO_COLUMN_DEFAULT` -/
def columnDefault : UInt32 := 127

/-- `ECMA_LINE_INFO_ENCODE_TWO_BYTE` -/
def encodeTwoByte : UInt8 := 254

/-- `ECMA_LINE_INFO_ENCODE_TWO_BYTE_MIN` -/
def encodeTwoByteMin : UInt32 := 254

/-- `ECMA_LINE_INFO_ENCODE_VLQ` -/
def encodeVlq : UInt8 := 255

/-- `ECMA_LINE_INFO_ENCODE_VLQ_MIN` -/
def encodeVlqMin : UInt32 := encodeTwoByteMin + 255 + 1

/-- `ECMA_LINE_INFO_STREAM_VALUE_COUNT_MAX` -/
def streamValueCountMax : UInt32 := 48

/-- `ECMA_LINE_INFO_STREAM_SIZE_MIN` -/
def streamSizeMin : UInt32 := 2 * streamValueCountMax - 1

/-- The loop of `ecma_line_info_decode_vlq`, behind the groups whose value is given. -/
def decodeVlqGroups : UInt32 → List UInt8 → Option (UInt32 × List UInt8)
  | _, [] => none
  | value, byte :: source =>
    let value := (value <<< 7) ||| (byte &&& 0x7f).toUInt32
    if byte &&& 0x80 ≠ 0 then decodeVlqGroups value source else some (value, source)

def ecmaLineInfoDecodeVlq (source : List UInt8) : Option (UInt32 × List UInt8) :=
  decodeVlqGroups 0 source

def ecmaLineInfoDecodeSmall : List UInt8 → Option (UInt32 × List UInt8)
  | [] => none
  | type :: source =>
    if type.toUInt32 < encodeTwoByteMin then some (type.toUInt32, source)
    else if type = encodeTwoByte then
      match source with
      | [] => none
      | byte :: source => some (byte.toUInt32 + encodeTwoByteMin, source)
    else do
      let (value, source) ← ecmaLineInfoDecodeVlq source
      some (value + encodeVlqMin, source)

def ecmaLineInfoDifferenceUpdate (currentValue differenceValue : UInt32) : UInt32 :=
  if differenceValue &&& 1 = 0 then currentValue + (differenceValue >>> 1) + 1
  else currentValue - (differenceValue >>> 1)

/-- The first loop of `parser_line_info_encode_vlq`; a 32-bit number has at most five
groups. -/
def vlqLength : ℕ → UInt32 → ℕ
  | 0, _ => 0
  | groups + 1, value => (if value >>> 7 > 0 then vlqLength groups (value >>> 7) else 0) + 1

/-- The second loop of `parser_line_info_encode_vlq`, from the last byte to the first. -/
def fillVlq : ℕ → UInt32 → List UInt8
  | 0, _ => []
  | groups + 1, value =>
    (if value >>> 7 > 0 then fillVlq groups (value >>> 7) else []) ++ [(value ||| 0x80).toUInt8]

def parserLineInfoEncodeVlq (value : UInt32) : List UInt8 :=
  if value ≤ 0x7f then [value.toUInt8]
  else (fillVlq 5 value).modify (vlqLength 5 value - 1) (· &&& 0x7f)

def parserLineInfoEncodeSmall (value : UInt32) : List UInt8 :=
  if value < encodeTwoByteMin then [value.toUInt8]
  else if value < encodeVlqMin then [encodeTwoByte, (value - encodeTwoByteMin).toUInt8]
  else encodeVlq :: parserLineInfoEncodeVlq (value - encodeVlqMin)

def parserLineInfoDifferenceGet (currentValue prevValue : UInt32) : UInt32 :=
  let result := currentValue - prevValue - 1
  if result ≤ (0xffffffff : UInt32) >>> 1 then (result <<< 1) ||| 0
  else ((0xffffffff - result) <<< 1) ||| 1

/-! ## Large values -/

theorem toNat_shiftRight_seven (value : UInt32) : (value >>> 7).toNat = value.toNat / 128 := by
  rw [UInt32.toNat_shiftRight]
  simp [Nat.shiftRight_eq_div_pow]

theorem toNat_low_seven (byte : UInt8) : (byte &&& 0x7f).toNat = byte.toNat % 128 := by
  rw [UInt8.toNat_and]
  exact Nat.and_two_pow_sub_one_eq_mod byte.toNat 7

theorem or_high_bit {byte : ℕ} (isByte : byte < 256) : byte ||| 128 = 128 + byte % 128 := by
  have all : ∀ byte : Fin 256, byte.val ||| 128 = 128 + byte.val % 128 := by decide +kernel
  exact all ⟨byte, isByte⟩

theorem and_high_bit {byte : ℕ} (isByte : byte < 256) : byte &&& 128 = byte / 128 * 128 := by
  have all : ∀ byte : Fin 256, byte.val &&& 128 = byte.val / 128 * 128 := by decide +kernel
  exact all ⟨byte, isByte⟩

theorem high_bit_iff (byte : UInt8) : byte &&& 0x80 ≠ 0 ↔ ¬byte.toNat < 128 := by
  have isByte := byte.toNat_lt
  rw [Ne, ← UInt8.toNat_inj, UInt8.toNat_and]
  change ¬(byte.toNat &&& 128) = 0 ↔ _
  rw [and_high_bit (by simpa using isByte)]
  omega

/-- A group enters at the low end, and what leaves at the high end is lost. -/
theorem shiftLeft_or_group (value : ℕ) (byte : UInt8) :
    (UInt32.ofNat value <<< 7) ||| (byte &&& 0x7f).toUInt32 =
      UInt32.ofNat (value * 128 + byte.toNat % 128) := by
  have shifted : (value % 2 ^ 32) * 2 ^ 7 % 2 ^ 32 =
      (value * 128 % 2 ^ 32 / 128) <<< 7 := by
    rw [Nat.shiftLeft_eq]
    omega
  rw [← UInt32.toNat_inj, UInt32.toNat_or, UInt32.toNat_shiftLeft, UInt32.toNat_ofNat',
    UInt32.toNat_ofNat', UInt8.toNat_toUInt32, toNat_low_seven]
  change ((value % 2 ^ 32) <<< 7) % 2 ^ 32 ||| byte.toNat % 128 = _
  rw [Nat.shiftLeft_eq, shifted, ← Nat.shiftLeft_add_eq_or_of_lt (by omega), Nat.shiftLeft_eq]
  omega

/-- The loop reads the quantity, modulo what a 32-bit number holds. -/
theorem decodeVlqGroups_ofNat (value : ℕ) (source : List UInt8) :
    decodeVlqGroups (UInt32.ofNat value) source =
      (Quantity.read value source).map (Prod.map UInt32.ofNat id) := by
  induction source generalizing value with
  | nil => rfl
  | cons byte source ih =>
      simp only [decodeVlqGroups, Quantity.read, shiftLeft_or_group, high_bit_iff, ih]
      by_cases last : byte.toNat < 128 <;> simp [last]

theorem length_fillVlq (groups : ℕ) (value : UInt32) :
    (fillVlq groups value).length = vlqLength groups value := by
  induction groups generalizing value with
  | zero => rfl
  | succ groups ih =>
      simp only [fillVlq, vlqLength, List.length_append, List.length_singleton]
      split_ifs
      · rw [ih]
      · rfl

theorem or_mark_toUInt8 (value : UInt32) :
    (value ||| 0x80).toUInt8 = UInt8.ofNat (128 + value.toNat % 128) := by
  rw [← UInt8.toNat_inj, UInt32.toNat_toUInt8, UInt32.toNat_or, UInt8.toNat_ofNat']
  change (value.toNat ||| 128) % 2 ^ 8 = _
  rw [Nat.or_mod_two_pow]
  change value.toNat % 256 ||| 128 = _
  rw [or_high_bit (Nat.mod_lt _ (by omega))]
  omega

theorem fillVlq_eq {groups : ℕ} {value : UInt32} (positive : 0 < value.toNat)
    (small : value.toNat < 128 ^ groups) :
    fillVlq groups value = Quantity.continued value.toNat := by
  induction groups generalizing value with
  | zero => simp at small; omega
  | succ groups ih =>
      have next : (value >>> 7).toNat < 128 ^ groups := by
        rw [toNat_shiftRight_seven]
        rw [pow_succ] at small
        exact Nat.div_lt_of_lt_mul (by omega)
      rw [fillVlq, Quantity.continued_of_pos positive, or_mark_toUInt8,
        ← toNat_shiftRight_seven]
      congr 1
      split_ifs with more
      · exact ih (by simpa [UInt32.lt_iff_toNat_lt] using more) next
      · have ended : (value >>> 7).toNat = 0 := by
          simpa [UInt32.lt_iff_toNat_lt] using more
        rw [ended, Quantity.continued_zero]

theorem modify_last (front : List UInt8) (byte : UInt8) (change : UInt8 → UInt8) :
    (front ++ [byte]).modify front.length change = front ++ [change byte] := by
  induction front with
  | nil => rfl
  | cons first front ih => simp [ih]

theorem parserLineInfoEncodeVlq_eq (value : UInt32) :
    parserLineInfoEncodeVlq value = Quantity.bytes value.toNat := by
  have bound := value.toNat_lt
  unfold parserLineInfoEncodeVlq
  split_ifs with short
  · have small : value.toNat < 128 := by
      have := UInt32.le_iff_toNat_le.mp short
      simp at this
      omega
    rw [Quantity.bytes_of_lt small]
    simp
  · have large : 128 ≤ value.toNat := by
      by_contra less
      apply short
      rw [UInt32.le_iff_toNat_le]
      simp
      omega
    have filled : fillVlq 5 value = Quantity.continued (value.toNat / 128) ++
        [UInt8.ofNat (128 + value.toNat % 128)] := by
      rw [fillVlq_eq (by omega) (by omega), Quantity.continued_of_pos (by omega)]
    have last : vlqLength 5 value - 1 = (Quantity.continued (value.toNat / 128)).length := by
      rw [← length_fillVlq, filled]
      simp
    have cleared : UInt8.ofNat (128 + value.toNat % 128) &&& 0x7f =
        UInt8.ofNat (value.toNat % 128) := by
      rw [← UInt8.toNat_inj, toNat_low_seven, UInt8.toNat_ofNat', UInt8.toNat_ofNat']
      omega
    rw [last, filled, modify_last, cleared, Quantity.bytes]

/-- `ecma_line_info_decode_vlq` reads back what `parser_line_info_encode_vlq` wrote. -/
theorem ecmaLineInfoDecodeVlq_encode (value : UInt32) (rest : List UInt8) :
    ecmaLineInfoDecodeVlq (parserLineInfoEncodeVlq value ++ rest) = some (value, rest) := by
  have read := Quantity.read_bytes value.toNat rest
  have decoded := decodeVlqGroups_ofNat 0 (Quantity.bytes value.toNat ++ rest)
  rw [parserLineInfoEncodeVlq_eq]
  change decodeVlqGroups (UInt32.ofNat 0) _ = _
  rw [decoded, read]
  simp

theorem parserLineInfoEncodeVlq_ne_nil (value : UInt32) : parserLineInfoEncodeVlq value ≠ [] := by
  rw [parserLineInfoEncodeVlq_eq]
  exact Quantity.bytes_ne_nil _

theorem length_parserLineInfoEncodeVlq_le (value : UInt32) :
    (parserLineInfoEncodeVlq value).length ≤ 5 := by
  have bound := value.toNat_lt
  rw [parserLineInfoEncodeVlq_eq]
  exact Quantity.length_bytes_le (by omega)

/-! ## Small values -/

theorem toUInt32_toUInt8 {value : UInt32} (isByte : value.toNat < 256) :
    value.toUInt8.toUInt32 = value := by
  rw [← UInt32.toNat_inj, UInt8.toNat_toUInt32, UInt32.toNat_toUInt8]
  omega

@[simp] theorem ecmaLineInfoDecodeSmall_twoByte (byte : UInt8) (rest : List UInt8) :
    ecmaLineInfoDecodeSmall (encodeTwoByte :: byte :: rest) =
      some (byte.toUInt32 + encodeTwoByteMin, rest) := rfl

@[simp] theorem ecmaLineInfoDecodeSmall_vlq (rest : List UInt8) :
    ecmaLineInfoDecodeSmall (encodeVlq :: rest) =
      (ecmaLineInfoDecodeVlq rest).bind fun read => some (read.1 + encodeVlqMin, read.2) := rfl

/-- `ecma_line_info_decode_small` reads back what `parser_line_info_encode_small` wrote. -/
theorem ecmaLineInfoDecodeSmall_encode (value : UInt32) (rest : List UInt8) :
    ecmaLineInfoDecodeSmall (parserLineInfoEncodeSmall value ++ rest) = some (value, rest) := by
  unfold parserLineInfoEncodeSmall
  split_ifs with oneByte twoByte
  · have small : value.toNat < 254 := UInt32.lt_iff_toNat_lt.mp oneByte
    simp [ecmaLineInfoDecodeSmall, toUInt32_toUInt8 (show value.toNat < 256 by omega), oneByte]
  · have least : 254 ≤ value.toNat := by
      by_contra less
      exact oneByte (UInt32.lt_iff_toNat_lt.mpr (by simpa [encodeTwoByteMin] using less))
    have most : value.toNat < 510 := UInt32.lt_iff_toNat_lt.mp twoByte
    have offset : (value - encodeTwoByteMin).toNat = value.toNat - 254 :=
      UInt32.toNat_sub_of_le _ _ (UInt32.le_iff_toNat_le.mpr least)
    have decoded := toUInt32_toUInt8 (show (value - encodeTwoByteMin).toNat < 256 by omega)
    rw [List.cons_append, List.singleton_append, ecmaLineInfoDecodeSmall_twoByte, decoded]
    simp
  · simp [ecmaLineInfoDecodeVlq_encode]

theorem parserLineInfoEncodeSmall_ne_nil (value : UInt32) :
    parserLineInfoEncodeSmall value ≠ [] := by
  unfold parserLineInfoEncodeSmall
  split_ifs <;> simp

theorem length_parserLineInfoEncodeSmall_le (value : UInt32) :
    (parserLineInfoEncodeSmall value).length ≤ 6 := by
  have large := length_parserLineInfoEncodeVlq_le (value - encodeVlqMin)
  unfold parserLineInfoEncodeSmall
  split_ifs
  · simp
  · simp
  · rw [List.length_cons]
    omega

/-! ## Differences -/

variable {value bit : UInt32}

theorem toNat_shiftLeft_or_bit (small : value.toNat < 2 ^ 31) (isBit : bit.toNat < 2) :
    ((value <<< 1) ||| bit).toNat = value.toNat * 2 + bit.toNat := by
  rw [UInt32.toNat_or, UInt32.toNat_shiftLeft]
  change (value.toNat <<< 1) % 2 ^ 32 ||| bit.toNat = _
  rw [Nat.mod_eq_of_lt (by rw [Nat.shiftLeft_eq]; omega),
    ← Nat.shiftLeft_add_eq_or_of_lt (by simpa using isBit), Nat.shiftLeft_eq, pow_one]

theorem shiftLeft_or_bit_shiftRight (small : value.toNat < 2 ^ 31) (isBit : bit.toNat < 2) :
    ((value <<< 1) ||| bit) >>> 1 = value := by
  rw [← UInt32.toNat_inj, UInt32.toNat_shiftRight, toNat_shiftLeft_or_bit small isBit]
  change (value.toNat * 2 + bit.toNat) >>> 1 = _
  rw [Nat.shiftRight_eq_div_pow]
  omega

theorem shiftLeft_or_bit_and (small : value.toNat < 2 ^ 31) (isBit : bit.toNat < 2) :
    ((value <<< 1) ||| bit) &&& 1 = bit := by
  rw [← UInt32.toNat_inj, UInt32.toNat_and, toNat_shiftLeft_or_bit small isBit]
  change (value.toNat * 2 + bit.toNat) &&& 1 = _
  rw [Nat.and_one_is_mod]
  omega

/-- A difference takes any value as far as the two it was taken of are apart, around the range
if need be. -/
theorem ecmaLineInfoDifferenceUpdate_get_add (start currentValue prevValue : UInt32) :
    ecmaLineInfoDifferenceUpdate start (parserLineInfoDifferenceGet currentValue prevValue) =
      start + (currentValue - prevValue) := by
  unfold parserLineInfoDifferenceGet
  simp only []
  split_ifs with increase
  · have small : (currentValue - prevValue - 1).toNat < 2 ^ 31 := by
      have := UInt32.le_iff_toNat_le.mp increase
      simp at this
      omega
    unfold ecmaLineInfoDifferenceUpdate
    rw [shiftLeft_or_bit_and small (by simp), if_pos rfl,
      shiftLeft_or_bit_shiftRight small (by simp)]
    grind
  · have small : (0xffffffff - (currentValue - prevValue - 1)).toNat < 2 ^ 31 := by
      have large : 2 ^ 31 ≤ (currentValue - prevValue - 1).toNat := by
        by_contra less
        apply increase
        rw [UInt32.le_iff_toNat_le]
        simp
        omega
      have bound := (currentValue - prevValue - 1).toNat_lt
      rw [UInt32.toNat_sub_of_le _ _ (UInt32.le_iff_toNat_le.mpr (by simp; omega))]
      simp
      omega
    unfold ecmaLineInfoDifferenceUpdate
    rw [shiftLeft_or_bit_and small (by simp), if_neg (by simp),
      shiftLeft_or_bit_shiftRight small (by simp)]
    grind

@[simp] theorem ecmaLineInfoDifferenceUpdate_get (currentValue prevValue : UInt32) :
    ecmaLineInfoDifferenceUpdate prevValue
      (parserLineInfoDifferenceGet currentValue prevValue) = currentValue := by
  rw [ecmaLineInfoDifferenceUpdate_get_add]
  grind

theorem ecmaLineInfoDifferenceUpdate_get_ne (start : UInt32) {currentValue prevValue : UInt32}
    (differs : currentValue ≠ prevValue) :
    ecmaLineInfoDifferenceUpdate start (parserLineInfoDifferenceGet currentValue prevValue) ≠
      start := by
  rw [ecmaLineInfoDifferenceUpdate_get_add]
  grind

end Cmsframe
