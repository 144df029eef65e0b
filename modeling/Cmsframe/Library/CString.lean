import Mathlib.Data.List.TakeWhile
import Cmsframe.Library.Decimal

/-!
# C strings

Strings as the C library sees them, bytes up to a NUL, and the reading of a decimal
number off such a string by `strtol`, in the C locale and with a `long` of 64 bits.
-/

namespace CString

open Decimal

/-- The string that begins at the start of some memory. -/
def upToNul (memory : List UInt8) : List UInt8 :=
  memory.takeWhile fun byte => byte ≠ 0

/-- `isspace`. -/
def IsSpace (byte : UInt8) : Prop := byte = 0x20 ∨ (0x09 ≤ byte.toNat ∧ byte.toNat ≤ 0x0D)

instance (byte : UInt8) : Decidable (IsSpace byte) :=
  inferInstanceAs (Decidable (_ ∨ _))

/-- The sign in front of a number: whether it is a minus, and how many bytes it takes. -/
def sign (text : List UInt8) : Bool × ℕ :=
  if text.head? = some 0x2D then (true, 1)
  else if text.head? = some 0x2B then (false, 1)
  else (false, 0)

/-- A number out of the range of `long` becomes the nearest bound. -/
def toLong (value : ℤ) : ℤ := max (-2 ^ 63) (min (2 ^ 63 - 1) value)

/-- `strtol` with base 10: the number, and how many bytes the end pointer is behind the start.
Without a digit the end pointer is the start. -/
def strtol (text : List UInt8) : ℤ × ℕ :=
  let blanks := text.takeWhile fun byte => IsSpace byte
  let signed := text.drop blanks.length
  let digits := (signed.drop (sign signed).2).takeWhile fun byte => IsDigit byte
  if digits = [] then
    (0, 0)
  else
    (toLong (if (sign signed).1 then -(value digits : ℤ) else value digits),
      blanks.length + (sign signed).2 + digits.length)

/-- The conversion of a `long` to `unsigned int`. -/
def toUnsignedInt (value : ℤ) : ℕ := (value % 2 ^ 32).toNat

theorem upToNul_eq_self {text : List UInt8} (noNul : 0 ∉ text) : upToNul text = text := by
  rw [upToNul, List.takeWhile_eq_self_iff]
  intro byte mem
  simpa using fun isNul : byte = 0 => noNul (isNul ▸ mem)

/-- What stands behind a NUL does not matter. -/
theorem upToNul_append_nul (text rest : List UInt8) :
    upToNul (text ++ 0 :: rest) = upToNul text := by
  induction text with
  | nil => rfl
  | cons byte text ih =>
      rw [List.cons_append]
      simp only [upToNul, List.takeWhile_cons] at ih ⊢
      rw [ih]

theorem length_upToNul_le (memory : List UInt8) : (upToNul memory).length ≤ memory.length :=
  (List.takeWhile_prefix _).length_le

theorem length_sign_le (text : List UInt8) : (sign text).2 ≤ text.length := by
  cases text with
  | nil => simp [sign]
  | cons first rest =>
      unfold sign
      split_ifs <;> simp

/-- The end pointer is inside the string or at its end. -/
theorem strtol_consumed_le (text : List UInt8) : (strtol text).2 ≤ text.length := by
  simp only [strtol]
  split
  · exact Nat.zero_le _
  · have blanks : (text.takeWhile fun byte => decide (IsSpace byte)).length ≤ text.length :=
      (List.takeWhile_prefix _).length_le
    have signLength := length_sign_le
      (text.drop (text.takeWhile fun byte => decide (IsSpace byte)).length)
    have digits := (List.takeWhile_prefix (fun byte => decide (IsDigit byte))
      (l := (text.drop (text.takeWhile fun byte => decide (IsSpace byte)).length).drop
        (sign (text.drop (text.takeWhile fun byte => decide (IsSpace byte)).length)).2)).length_le
    simp only [List.length_drop] at signLength digits ⊢
    omega

theorem not_isSpace_of_isDigit {byte : UInt8} (digit : IsDigit byte) : ¬IsSpace byte := by
  rintro (rfl | ⟨_, upper⟩)
  · exact absurd digit (by decide)
  · unfold IsDigit at digit
    omega

theorem sign_of_isDigit {first : UInt8} (digit : IsDigit first) (rest : List UInt8) :
    sign (first :: rest) = (false, 0) := by
  unfold sign
  rw [if_neg, if_neg]
  · rintro ⟨rfl⟩
    exact absurd digit (by decide)
  · rintro ⟨rfl⟩
    exact absurd digit (by decide)

/-- Digits that are followed by something else are read as the number they denote. -/
theorem strtol_digits {digits rest : List UInt8} (notEmpty : digits ≠ [])
    (areDigits : ∀ byte ∈ digits, IsDigit byte) (ends : ∀ byte ∈ rest.head?, ¬IsDigit byte)
    (small : value digits < 2 ^ 63) :
    strtol (digits ++ rest) = ((value digits : ℤ), digits.length) := by
  rcases List.exists_cons_of_ne_nil notEmpty with ⟨first, others, rfl⟩
  have firstDigit : IsDigit first := areDigits first List.mem_cons_self
  have noBlanks : ((first :: others) ++ rest).takeWhile (fun byte => decide (IsSpace byte)) = [] := by
    rw [List.cons_append, List.takeWhile_cons_of_neg]
    simpa using not_isSpace_of_isDigit firstDigit
  have read : ((first :: others) ++ rest).takeWhile (fun byte => decide (IsDigit byte)) =
      first :: others := by
    rw [List.takeWhile_append_of_pos (by simpa using areDigits)]
    cases rest with
    | nil => simp
    | cons next rest =>
        rw [List.takeWhile_cons_of_neg (by simpa using ends next rfl), List.append_nil]
  have noSign : sign ((first :: others) ++ rest) = (false, 0) := sign_of_isDigit firstDigit _
  have inRange : toLong (value (first :: others)) = value (first :: others) := by
    unfold toLong
    omega
  simp only [strtol, noBlanks, List.length_nil, List.drop_zero, noSign, read]
  simp [inRange]

theorem toUnsignedInt_natCast {number : ℕ} (small : number < 2 ^ 32) :
    toUnsignedInt (number : ℤ) = number := by
  unfold toUnsignedInt
  omega

end CString
