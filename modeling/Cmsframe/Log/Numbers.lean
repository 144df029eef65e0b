import Cmsframe.Log.Logger

/-!
# Numbers in the log buffer

The two functions that write numbers from the end of the buffer. A number is what its
notation says, and they stay in the buffer exactly as long as the width is at most 63.
-/

namespace Cmsframe

open Radix (text padded)

/-- The text of a signed number with its padding: zeros stand behind the sign, spaces in
front of it. -/
def numberText (padding : UInt8) (width : ℕ) (num : ℤ) : List UInt8 :=
  if 0 ≤ num then
    padded padding width (text 10 num.toNat)
  else if padding = 0x30 ∧ 0 < width then
    0x2D :: padded 0x30 (width - 1) (text 10 (-num).toNat)
  else
    padded 0x20 width (0x2D :: text 10 (-num).toNat)

section Digits

variable {radix num cursor : ℕ}

theorem logDigit_eq {value : ℕ} (small : value < 16) : logDigit value = Radix.digit value := by
  have all : ∀ digit : Fin 16, logDigit digit.val = Radix.digit digit.val := by decide
  exact all ⟨value, small⟩

/-- The digits are written from the end. -/
theorem formatDigits_eq (atLeastTwo : 2 ≤ radix) (atMost : radix ≤ 16)
    (enough : (text radix num).length ≤ cursor) (tail : List UInt8) :
    formatDigits radix cursor num tail =
      .ok (cursor - (text radix num).length, text radix num ++ tail) := by
  induction cursor generalizing num tail with
  | zero =>
      have positive := List.length_pos_of_ne_nil (Radix.text_ne_nil radix num)
      omega
  | succ cursor ih =>
      have small : num % radix < 16 := lt_of_lt_of_le (Nat.mod_lt _ (by omega)) atMost
      rw [formatDigits, logDigit_eq small]
      by_cases single : num < radix
      · rw [Nat.div_eq_of_lt single, if_neg (Nat.lt_irrefl 0), Radix.text_of_lt single,
          Nat.mod_eq_of_lt single]
        rfl
      · have more : 0 < num / radix := Nat.div_pos (by omega) (by omega)
        have last := Radix.text_of_le atLeastTwo (show radix ≤ num by omega)
        rw [last, List.length_append, List.length_singleton] at enough ⊢
        rw [if_pos more, ih (by omega), List.append_assoc, Nat.add_sub_add_right]
        rfl

end Digits

section Padding

variable {padding : UInt8} {width cursor : ℕ} {digits : List UInt8}

theorem padNumber_eq (fits : width ≤ cursor + digits.length) :
    padNumber padding width cursor digits.length digits =
      .ok (cursor + digits.length - (padded padding width digits).length,
        padded padding width digits) := by
  induction cursor generalizing digits with
  | zero =>
      rw [padNumber, if_neg (by omega), Radix.padded_of_le (by omega), Nat.zero_add, Nat.sub_self]
      rfl
  | succ cursor ih =>
      rw [padNumber]
      by_cases short : digits.length < width
      · have rest := @ih (padding :: digits) (by rw [List.length_cons]; omega)
        rw [List.length_cons, Radix.padded_cons short] at rest
        rw [if_pos short, rest]
        congr 3
        omega
      · rw [if_neg short, Radix.padded_of_le (by omega), Nat.add_sub_cancel]
        rfl

theorem padNumber_overrun (wide : cursor + digits.length < width) :
    padNumber padding width cursor digits.length digits = .error .outOfBounds := by
  induction cursor generalizing digits with
  | zero =>
      rw [padNumber, if_pos (by omega)]
      rfl
  | succ cursor ih =>
      rw [padNumber, if_pos (by omega)]
      exact @ih (padding :: digits) (by rw [List.length_cons]; omega)

theorem indentNumber_eq (fits : width ≤ 63) (inBuffer : cursor + digits.length = 63) :
    ∃ final, indentNumber ((jerryLogBufferSize : ℤ) - width - 1) cursor digits =
      .ok (final, padded 0x20 width digits) := by
  have size : jerryLogBufferSize = 64 := rfl
  induction cursor generalizing digits with
  | zero =>
      refine ⟨0, ?_⟩
      rw [indentNumber, if_neg (by omega), Radix.padded_of_le (by omega)]
      rfl
  | succ cursor ih =>
      rw [indentNumber]
      by_cases short : digits.length < width
      · rw [if_pos (by omega), ← Radix.padded_cons short]
        exact ih (by rw [List.length_cons]; omega)
      · refine ⟨cursor + 1, ?_⟩
        rw [if_neg (by omega), Radix.padded_of_le (by omega)]
        rfl

theorem indentNumber_overrun (wide : 63 < width) :
    indentNumber ((jerryLogBufferSize : ℤ) - width - 1) cursor digits = .error .outOfBounds := by
  have size : jerryLogBufferSize = 64 := rfl
  induction cursor generalizing digits with
  | zero =>
      rw [indentNumber, if_pos (by omega)]
      rfl
  | succ cursor ih =>
      rw [indentNumber, if_pos (by omega)]
      exact ih

end Padding

section Formats

variable {padding : UInt8} {width radix num : ℕ}

/-- Every number of 32 bits has at most ten digits. -/
theorem length_text_word (isRadix : radix = 10 ∨ radix = 16) (small : num < 2 ^ 32) :
    (text radix num).length ≤ 10 := by
  apply Radix.length_text_le (by omega) (by omega)
  rcases isRadix with rfl | rfl
  · exact lt_trans small (by norm_num)
  · exact lt_trans small (by norm_num)

theorem jerryFormatUnsigned_eq (isRadix : radix = 10 ∨ radix = 16) (small : num < 2 ^ 32)
    (fits : width ≤ 63) :
    jerryFormatUnsigned num width padding radix =
      .ok (63 - (padded padding width (text radix num)).length,
        padded padding width (text radix num)) := by
  have short := length_text_word isRadix small
  have size : jerryLogBufferSize = 64 := rfl
  have written := @formatDigits_eq radix num (jerryLogBufferSize - 1) (by omega) (by omega)
    (by omega) []
  rw [List.append_nil] at written
  have placed : jerryLogBufferSize - 1 - (text radix num).length + (text radix num).length = 63 := by
    omega
  have extended := @padNumber_eq padding width (jerryLogBufferSize - 1 - (text radix num).length)
    (text radix num) (by omega)
  rw [placed] at extended
  rw [jerryFormatUnsigned, written]
  exact extended

theorem jerryFormatUnsigned_overrun (isRadix : radix = 10 ∨ radix = 16) (small : num < 2 ^ 32)
    (wide : 63 < width) :
    jerryFormatUnsigned num width padding radix = .error .outOfBounds := by
  have short := length_text_word isRadix small
  have size : jerryLogBufferSize = 64 := rfl
  have written := @formatDigits_eq radix num (jerryLogBufferSize - 1) (by omega) (by omega)
    (by omega) []
  rw [List.append_nil] at written
  rw [jerryFormatUnsigned, written]
  exact padNumber_overrun (by omega)

variable {value : ℤ}

/-- A signed number is written as its text. -/
theorem jerryFormatInt_eq (above : -2 ^ 31 < value) (below : value < 2 ^ 31) (fits : width ≤ 63) :
    ∃ cursor, jerryFormatInt value width padding = .ok (cursor, numberText padding width value) := by
  rw [jerryFormatInt, numberText]
  split_ifs with nonnegative least zeros
  · exact ⟨_, jerryFormatUnsigned_eq (.inl rfl) (by omega) fits⟩
  · omega
  · have formatted := @jerryFormatUnsigned_eq padding (width - 1) 10 (-value).toNat (.inl rfl)
      (by omega) (by omega)
    have short := @length_text_word 10 (-value).toNat (.inl rfl) (by omega)
    have length := Radix.length_padded padding (width - 1) (text 10 (-value).toNat)
    rcases zeros with ⟨rfl, positive⟩
    obtain ⟨cursor, isCursor⟩ : ∃ cursor,
        63 - (padded 0x30 (width - 1) (text 10 (-value).toNat)).length = cursor + 1 :=
      ⟨62 - (padded 0x30 (width - 1) (text 10 (-value).toNat)).length, by omega⟩
    rw [isCursor] at formatted
    rw [formatted]
    exact ⟨cursor, rfl⟩
  · have formatted := @jerryFormatUnsigned_eq 0x20 0 10 (-value).toNat (.inl rfl) (by omega)
      (by omega)
    have short := @length_text_word 10 (-value).toNat (.inl rfl) (by omega)
    rw [Radix.padded_of_le (Nat.zero_le _)] at formatted
    obtain ⟨cursor, isCursor⟩ : ∃ cursor, 63 - (text 10 (-value).toNat).length = cursor + 1 :=
      ⟨62 - (text 10 (-value).toNat).length, by omega⟩
    rw [isCursor] at formatted
    rcases @indentNumber_eq width cursor (0x2D :: text 10 (-value).toNat) fits
      (by rw [List.length_cons]; omega) with ⟨final, indented⟩
    rw [formatted]
    exact ⟨final, indented⟩

theorem jerryFormatInt_overrun (above : -2 ^ 31 < value) (below : value < 2 ^ 31)
    (wide : 63 < width) : jerryFormatInt value width padding = .error .outOfBounds := by
  rw [jerryFormatInt]
  split_ifs with nonnegative least zeros
  · exact jerryFormatUnsigned_overrun (.inl rfl) (by omega) wide
  · omega
  · by_cases further : 63 < width - 1
    · rw [jerryFormatUnsigned_overrun (.inl rfl) (by omega) further]
      rfl
    · have short := @length_text_word 10 (-value).toNat (.inl rfl) (by omega)
      have length := Radix.length_padded padding (width - 1) (text 10 (-value).toNat)
      have full : 63 - (padded padding (width - 1) (text 10 (-value).toNat)).length = 0 := by omega
      rw [jerryFormatUnsigned_eq (.inl rfl) (by omega) (by omega), full]
      rfl
  · have short := @length_text_word 10 (-value).toNat (.inl rfl) (by omega)
    have formatted := @jerryFormatUnsigned_eq 0x20 0 10 (-value).toNat (.inl rfl) (by omega)
      (by omega)
    rw [Radix.padded_of_le (Nat.zero_le _)] at formatted
    obtain ⟨cursor, isCursor⟩ : ∃ cursor, 63 - (text 10 (-value).toNat).length = cursor + 1 :=
      ⟨62 - (text 10 (-value).toNat).length, by omega⟩
    rw [isCursor] at formatted
    rw [formatted]
    exact indentNumber_overrun wide

end Formats

end Cmsframe
