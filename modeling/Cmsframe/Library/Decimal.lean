import Mathlib.Data.Nat.Digits.Lemmas
import Mathlib.Tactic.Common

/-!
# Decimal notation

Decimal digits of natural numbers as ASCII bytes, most significant first, without
leading zeros, and their reading back.
-/

namespace Decimal

/-- The ASCII byte is a decimal digit. -/
def IsDigit (byte : UInt8) : Prop := 0x30 ≤ byte.toNat ∧ byte.toNat ≤ 0x39

instance (byte : UInt8) : Decidable (IsDigit byte) :=
  inferInstanceAs (Decidable (_ ∧ _))

/-- The decimal notation of a number. -/
def decimal (number : ℕ) : List UInt8 :=
  if number = 0 then
    [0x30]
  else
    (Nat.digits 10 number).reverse.map fun digit => UInt8.ofNat (0x30 + digit)

/-- The number a sequence of digits denotes. -/
def value (digits : List UInt8) : ℕ :=
  digits.foldl (fun total byte => total * 10 + (byte.toNat - 0x30)) 0

theorem decimal_ne_nil (number : ℕ) : decimal number ≠ [] := by
  unfold decimal
  split_ifs with isZero
  · simp
  · simpa [Nat.digits_ne_nil_iff_ne_zero] using isZero

theorem isDigit_of_mem_decimal {number : ℕ} {byte : UInt8} (mem : byte ∈ decimal number) :
    IsDigit byte := by
  unfold decimal at mem
  split_ifs at mem with isZero
  · simp only [List.mem_singleton] at mem
    subst mem
    decide
  · simp only [List.mem_map, List.mem_reverse] at mem
    rcases mem with ⟨digit, digitMem, rfl⟩
    have bound : digit < 10 := Nat.digits_lt_base (by norm_num) digitMem
    simp only [IsDigit, UInt8.toNat_ofNat']
    omega

theorem ascii_decimal (number : ℕ) : ∀ byte ∈ decimal number, byte.toNat < 0x80 := by
  intro byte mem
  have digit : 0x30 ≤ byte.toNat ∧ byte.toNat ≤ 0x39 := isDigit_of_mem_decimal mem
  omega

/-- Only zero itself is written with a leading zero. -/
theorem head_decimal_ne_zero {number : ℕ} (positive : number ≠ 0) :
    (decimal number).head (decimal_ne_nil number) ≠ 0x30 := by
  have notNil : Nat.digits 10 number ≠ [] := Nat.digits_ne_nil_iff_ne_zero.mpr positive
  have bound : (Nat.digits 10 number).getLast notNil < 10 :=
    Nat.digits_lt_base (by norm_num) (List.getLast_mem notNil)
  have leading : (Nat.digits 10 number).getLast notNil ≠ 0 :=
    Nat.getLast_digit_ne_zero 10 positive
  simp only [decimal, if_neg positive, List.head_map, List.head_reverse]
  intro same
  have sameValue := congrArg UInt8.toNat same
  have zeroValue : (0x30 : UInt8).toNat = 0x30 := rfl
  rw [UInt8.toNat_ofNat', zeroValue] at sameValue
  omega

theorem length_decimal_le {number bound : ℕ} (positive : 0 < bound)
    (small : number < 10 ^ bound) : (decimal number).length ≤ bound := by
  unfold decimal
  split_ifs
  · exact positive
  · rw [List.length_map, List.length_reverse]
    exact (Nat.digits_length_le_iff (by norm_num) number).mpr small

private theorem value_map_reverse (digits : List ℕ) (small : ∀ digit ∈ digits, digit < 10) :
    value (digits.reverse.map fun digit => UInt8.ofNat (0x30 + digit)) =
      Nat.ofDigits 10 digits := by
  induction digits with
  | nil => rfl
  | cons digit digits ih =>
      have bound : digit < 10 := small digit (by simp)
      have rest := ih fun other mem => small other (by simp [mem])
      unfold value at rest ⊢
      rw [List.reverse_cons, List.map_append, List.foldl_append, rest, Nat.ofDigits_cons]
      simp only [List.map_cons, List.map_nil, List.foldl_cons, List.foldl_nil,
        UInt8.toNat_ofNat']
      omega

@[simp]
theorem value_decimal (number : ℕ) : value (decimal number) = number := by
  unfold decimal
  split_ifs with isZero
  · subst isZero
    rfl
  · rw [value_map_reverse _ fun digit mem => Nat.digits_lt_base (by norm_num) mem]
    exact Nat.ofDigits_digits 10 number

/-- Digits without a leading zero are the notation of their value. -/
theorem decimal_value {digits : List UInt8} (notEmpty : digits ≠ [])
    (areDigits : ∀ byte ∈ digits, IsDigit byte) (leading : digits.head notEmpty ≠ 0x30) :
    decimal (value digits) = digits := by
  let numbers := digits.reverse.map fun byte => byte.toNat - 0x30
  have small : ∀ number ∈ numbers, number < 10 := by
    intro number mem
    simp only [numbers, List.mem_map, List.mem_reverse] at mem
    rcases mem with ⟨byte, byteMem, rfl⟩
    have bounds := areDigits byte byteMem
    unfold IsDigit at bounds
    omega
  have back : numbers.reverse.map (fun digit => UInt8.ofNat (0x30 + digit)) = digits := by
    simp only [numbers, ← List.map_reverse, List.reverse_reverse, List.map_map]
    conv_rhs => rw [← List.map_id digits]
    apply List.map_congr_left
    intro byte mem
    have bounds := areDigits byte mem
    unfold IsDigit at bounds
    have restored : 0x30 + (byte.toNat - 0x30) = byte.toNat := by omega
    rw [Function.comp_apply, restored, UInt8.ofNat_toNat, id]
  have total : value digits = Nat.ofDigits 10 numbers := by
    rw [← value_map_reverse numbers small, back]
  have numbersNotEmpty : numbers ≠ [] := by simpa [numbers] using notEmpty
  have last : ∀ nonempty : numbers ≠ [], numbers.getLast nonempty ≠ 0 := by
    intro nonempty
    have bounds := areDigits _ (List.head_mem notEmpty)
    unfold IsDigit at bounds
    have notZero : (digits.head notEmpty).toNat ≠ 0x30 := by
      intro same
      exact leading (UInt8.toNat_inj.mp same)
    simp only [numbers, List.getLast_map, List.getLast_reverse]
    omega
  have digitsBack : Nat.digits 10 (value digits) = numbers := by
    rw [total]
    exact Nat.digits_ofDigits 10 (by norm_num) numbers small last
  have notZero : value digits ≠ 0 := by
    intro isZero
    rw [isZero, Nat.digits_zero] at digitsBack
    exact numbersNotEmpty digitsBack.symm
  rw [decimal, if_neg notZero, digitsBack, back]

theorem value_append_singleton (digits : List UInt8) (last : UInt8) :
    value (digits ++ [last]) = value digits * 10 + (last.toNat - 0x30) := by
  simp [value]

theorem value_lt {digits : List UInt8} (areDigits : ∀ byte ∈ digits, IsDigit byte) :
    value digits < 10 ^ digits.length := by
  induction digits using List.reverseRecOn with
  | nil => exact Nat.one_pos
  | append_singleton digits last ih =>
      have bound := ih fun byte mem => areDigits byte (by simp [mem])
      have lastDigit := areDigits last (by simp)
      unfold IsDigit at lastDigit
      rw [value_append_singleton, List.length_append, List.length_singleton, pow_succ]
      omega

theorem value_append (digits others : List UInt8) :
    value digits * 10 ^ others.length ≤ value (digits ++ others) := by
  induction others using List.reverseRecOn with
  | nil => simp
  | append_singleton others last ih =>
      rw [← List.append_assoc, value_append_singleton, List.length_append, List.length_singleton,
        pow_succ, ← Nat.mul_assoc]
      exact Nat.le_add_right_of_le (Nat.mul_le_mul_right 10 ih)

theorem value_take_decimal_le (number count : ℕ) :
    value ((decimal number).take count) ≤ number := by
  have grows := value_append ((decimal number).take count) ((decimal number).drop count)
  rw [List.take_append_drop, value_decimal] at grows
  exact (Nat.le_mul_of_pos_right _ (Nat.pow_pos (by norm_num))).trans grows

/-- The first digits of a number denote a smaller number, but not zero. -/
theorem value_take_decimal {number count : ℕ} (positive : number ≠ 0) (some : 0 < count)
    (cut : count < (decimal number).length) :
    0 < value ((decimal number).take count) ∧ value ((decimal number).take count) < number := by
  have split := List.take_append_drop count (decimal number)
  have notEmpty : (decimal number).take count ≠ [] := by
    intro isNil
    have length := congrArg List.length isNil
    rw [List.length_take, List.length_nil] at length
    omega
  have leading : ((decimal number).take count).head notEmpty ≠ 0x30 := by
    rw [List.head_take]
    exact head_decimal_ne_zero positive
  have back : decimal (value ((decimal number).take count)) = (decimal number).take count := by
    apply decimal_value notEmpty _ leading
    intro byte mem
    exact isDigit_of_mem_decimal (List.mem_of_mem_take mem)
  have notZero : value ((decimal number).take count) ≠ 0 := by
    intro isZero
    have zero : (decimal number).take count = [0x30] := by
      rw [← back, isZero]
      rfl
    simp only [zero, List.head_cons] at leading
    exact leading rfl
  have grows := value_append ((decimal number).take count) ((decimal number).drop count)
  rw [split, value_decimal] at grows
  have power : 10 ^ 1 ≤ 10 ^ ((decimal number).drop count).length := by
    apply Nat.pow_le_pow_right (by norm_num)
    rw [List.length_drop]
    omega
  have scaled := Nat.mul_le_mul_left (value ((decimal number).take count)) power
  omega

end Decimal
