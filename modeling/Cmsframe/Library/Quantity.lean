import Mathlib.Algebra.Order.Ring.Nat
import Mathlib.Data.Nat.Init
import Mathlib.Tactic.Common

/-!
# Quantities of variable length

A natural number as bytes of seven bits each, the most significant group first, every
byte but the last with its high bit set.
-/

namespace Quantity

/-- The groups of a number, each marked as continued; there are none for 0. -/
def continued (number : ℕ) : List UInt8 :=
  if number = 0 then [] else continued (number / 128) ++ [UInt8.ofNat (128 + number % 128)]
termination_by number
decreasing_by omega

/-- The bytes of a number: only its last group is not continued. -/
def bytes (number : ℕ) : List UInt8 :=
  continued (number / 128) ++ [UInt8.ofNat (number % 128)]

/-- Reads groups behind the ones whose value is given, up to the first that ends the
quantity, and returns what is left of the bytes. -/
def read : ℕ → List UInt8 → Option (ℕ × List UInt8)
  | _, [] => none
  | value, byte :: rest =>
    if byte.toNat < 128 then some (value * 128 + byte.toNat % 128, rest)
    else read (value * 128 + byte.toNat % 128) rest

variable {number : ℕ}

@[simp] theorem continued_zero : continued 0 = [] := by
  rw [continued, if_pos rfl]

theorem continued_of_pos (positive : 0 < number) :
    continued number = continued (number / 128) ++ [UInt8.ofNat (128 + number % 128)] := by
  rw [continued, if_neg (by omega)]

theorem bytes_of_lt (small : number < 128) : bytes number = [UInt8.ofNat number] := by
  rw [bytes, Nat.div_eq_of_lt small, Nat.mod_eq_of_lt small, continued_zero, List.nil_append]

theorem bytes_ne_nil (number : ℕ) : bytes number ≠ [] := by
  simp [bytes]

theorem read_ofNat_of_lt (value : ℕ) {group : ℕ} (small : group < 128) (rest : List UInt8) :
    read value (UInt8.ofNat group :: rest) = some (value * 128 + group, rest) := by
  have byte : (UInt8.ofNat group).toNat = group := by
    rw [UInt8.toNat_ofNat']
    omega
  rw [read, byte, if_pos small, Nat.mod_eq_of_lt small]

theorem read_ofNat_of_le (value : ℕ) {group : ℕ} (small : group < 128) (rest : List UInt8) :
    read value (UInt8.ofNat (128 + group) :: rest) = read (value * 128 + group) rest := by
  have byte : (UInt8.ofNat (128 + group)).toNat = 128 + group := by
    rw [UInt8.toNat_ofNat']
    omega
  rw [read, byte, if_neg (by omega), Nat.add_mod_left, Nat.mod_eq_of_lt small]

/-- The continued groups only add to the value read so far. -/
theorem read_continued (number : ℕ) (rest : List UInt8) :
    read 0 (continued number ++ rest) = read number rest := by
  induction number using Nat.strongRecOn generalizing rest with
  | ind number ih =>
      rcases Nat.eq_zero_or_pos number with rfl | positive
      · simp
      · have groups : number / 128 * 128 + number % 128 = number := Nat.div_add_mod' number 128
        rw [continued_of_pos positive, List.append_assoc, ih (number / 128) (by omega),
          List.singleton_append, read_ofNat_of_le _ (Nat.mod_lt _ (by omega)), groups]

/-- What was written is read back, and what follows it is left. -/
theorem read_bytes (number : ℕ) (rest : List UInt8) :
    read 0 (bytes number ++ rest) = some (number, rest) := by
  have groups : number / 128 * 128 + number % 128 = number := Nat.div_add_mod' number 128
  rw [bytes, List.append_assoc, read_continued, List.singleton_append,
    read_ofNat_of_lt _ (Nat.mod_lt _ (by omega)), groups]

theorem length_continued_le {count : ℕ} (small : number < 128 ^ count) :
    (continued number).length ≤ count := by
  induction count generalizing number with
  | zero =>
      have isZero : number = 0 := by simpa using small
      simp [isZero]
  | succ count ih =>
      rcases Nat.eq_zero_or_pos number with rfl | positive
      · simp
      · rw [pow_succ] at small
        rw [continued_of_pos positive, List.length_append, List.length_singleton]
        exact Nat.succ_le_succ (ih (Nat.div_lt_of_lt_mul (by omega)))

theorem length_bytes_le {count : ℕ} (small : number < 128 ^ (count + 1)) :
    (bytes number).length ≤ count + 1 := by
  rw [pow_succ] at small
  rw [bytes, List.length_append, List.length_singleton]
  exact Nat.succ_le_succ (length_continued_le (Nat.div_lt_of_lt_mul (by omega)))

end Quantity
