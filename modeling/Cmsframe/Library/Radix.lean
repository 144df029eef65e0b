import Mathlib.Data.Nat.Digits.Lemmas
import Mathlib.Tactic.Common
import Cmsframe.Library.Decimal

/-!
# Notation in a radix

Natural numbers in any radix up to 16, as ASCII bytes with the most significant digit first,
and their padding to a width.
-/

namespace Radix

/-- The ASCII byte of a digit. -/
def digit (value : ℕ) : UInt8 :=
  UInt8.ofNat (if value < 10 then 0x30 + value else 0x61 + (value - 10))

/-- The notation of a number, without leading zeros. -/
def text (radix number : ℕ) : List UInt8 :=
  if number = 0 then [0x30] else (Nat.digits radix number).reverse.map digit

/-- A text behind as much padding as its width asks for. -/
def padded (padding : UInt8) (width : ℕ) (text : List UInt8) : List UInt8 :=
  List.replicate (width - text.length) padding ++ text

variable {radix number : ℕ}

/-- A number of one digit. -/
theorem text_of_lt (small : number < radix) : text radix number = [digit number] := by
  unfold text
  split_ifs with isZero
  · subst isZero
    rfl
  · rw [Nat.digits_of_lt radix number isZero small]
    rfl

/-- The last digit comes off the end. -/
theorem text_of_le (atLeastTwo : 2 ≤ radix) (large : radix ≤ number) :
    text radix number = text radix (number / radix) ++ [digit (number % radix)] := by
  have positive : number ≠ 0 := by omega
  have quotient : number / radix ≠ 0 := by
    apply Nat.ne_of_gt
    exact Nat.div_pos large (by omega)
  unfold text
  rw [if_neg positive, if_neg quotient, Nat.digits_def' atLeastTwo (by omega)]
  simp

theorem length_text_le (atLeastTwo : 2 ≤ radix) {bound : ℕ} (positive : 0 < bound)
    (small : number < radix ^ bound) : (text radix number).length ≤ bound := by
  unfold text
  split_ifs
  · exact positive
  · rw [List.length_map, List.length_reverse]
    exact (Nat.digits_length_le_iff (by omega) number).mpr small

theorem text_ne_nil (radix number : ℕ) : text radix number ≠ [] := by
  unfold text
  split_ifs with isZero
  · simp
  · simpa [Nat.digits_ne_nil_iff_ne_zero] using isZero

theorem text_ten (number : ℕ) : text 10 number = Decimal.decimal number := by
  unfold text Decimal.decimal
  split_ifs
  · rfl
  · apply List.map_congr_left
    intro value mem
    have small : value < 10 := Nat.digits_lt_base (by omega) (List.mem_reverse.mp mem)
    rw [digit, if_pos small]

theorem length_padded (padding : UInt8) (width : ℕ) (text : List UInt8) :
    (padded padding width text).length = max width text.length := by
  simp only [padded, List.length_append, List.length_replicate]
  omega

theorem padded_of_le {padding : UInt8} {width : ℕ} {text : List UInt8}
    (long : width ≤ text.length) : padded padding width text = text := by
  rw [padded, Nat.sub_eq_zero_of_le long, List.replicate_zero, List.nil_append]

/-- One byte of padding more. -/
theorem padded_cons {padding : UInt8} {width : ℕ} {text : List UInt8}
    (short : text.length < width) :
    padded padding width (padding :: text) = padded padding width text := by
  have more : width - text.length = (width - (text.length + 1)) + 1 := by omega
  rw [padded, padded, List.length_cons, more, List.replicate_succ', List.append_assoc]
  rfl

end Radix
