import Mathlib.Data.Nat.Basic
import Mathlib.Tactic.Common
import Mathlib.Algebra.Ring.Nat

/-!
# Byte memory

Memory as a function from addresses to bytes, with words of four bytes in it, least significant
byte first. What a read sees depends on the bytes it covers only, and a write changes those only.
-/

namespace ByteMemory

/-- The bytes at all addresses. -/
abbrev Memory := ℕ → UInt8

/-- The word at an address. -/
def readWord (memory : Memory) (address : ℕ) : ℕ :=
  (memory address).toNat + 256 * (memory (address + 1)).toNat +
    65536 * (memory (address + 2)).toNat + 16777216 * (memory (address + 3)).toNat

/-- The memory after a word is written. -/
def writeWord (memory : Memory) (address value : ℕ) : Memory := fun other =>
  if address ≤ other ∧ other < address + 4 then UInt8.ofNat (value / 256 ^ (other - address))
  else memory other

/-- The memory after bytes are copied, which may overlap. -/
def copyBytes (memory : Memory) (target source count : ℕ) : Memory := fun other =>
  if target ≤ other ∧ other < target + count then memory (source + (other - target))
  else memory other

variable {memory later : Memory} {address other value count : ℕ}

theorem writeWord_outside (outside : other < address ∨ address + 4 ≤ other) :
    writeWord memory address value other = memory other := by
  rw [writeWord, if_neg (by omega)]

theorem readWord_lt (memory : Memory) (address : ℕ) : readWord memory address < 2 ^ 32 := by
  have zero := (memory address).toNat_lt
  have one := (memory (address + 1)).toNat_lt
  have two := (memory (address + 2)).toNat_lt
  have three := (memory (address + 3)).toNat_lt
  rw [readWord]
  omega

theorem readWord_congr (same : ∀ byte, address ≤ byte → byte < address + 4 →
    later byte = memory byte) : readWord later address = readWord memory address := by
  rw [readWord, readWord, same address (by omega) (by omega),
    same (address + 1) (by omega) (by omega), same (address + 2) (by omega) (by omega),
    same (address + 3) (by omega) (by omega)]

theorem readWord_writeWord (small : value < 2 ^ 32) :
    readWord (writeWord memory address value) address = value := by
  have byte : ∀ index, index < 4 → writeWord memory address value (address + index) =
      UInt8.ofNat (value / 256 ^ index) := by
    intro index inside
    rw [writeWord, if_pos (by omega), Nat.add_sub_cancel_left]
  have zero := byte 0 (by omega)
  rw [Nat.add_zero] at zero
  rw [readWord, zero, byte 1 (by omega), byte 2 (by omega), byte 3 (by omega)]
  simp only [UInt8.toNat_ofNat', Nat.reducePow, Nat.div_one]
  omega

theorem readWord_writeWord_apart (apart : other + 4 ≤ address ∨ address + 4 ≤ other) :
    readWord (writeWord memory address value) other = readWord memory other := by
  apply readWord_congr
  intro byte lower upper
  exact writeWord_outside (by omega)

theorem writeWord_comm {first second : ℕ} (apart : other + 4 ≤ address ∨ address + 4 ≤ other) :
    writeWord (writeWord memory address first) other second =
      writeWord (writeWord memory other second) address first := by
  funext byte
  by_cases inOther : other ≤ byte ∧ byte < other + 4
  · have kept : writeWord (writeWord memory other second) address first byte =
        writeWord memory other second byte := writeWord_outside (by omega)
    rw [kept, writeWord, if_pos inOther, writeWord, if_pos inOther]
  · have kept : writeWord (writeWord memory address first) other second byte =
        writeWord memory address first byte := writeWord_outside (by omega)
    have unwritten : writeWord memory other second byte = memory byte :=
      writeWord_outside (by omega)
    rw [kept, writeWord, writeWord, unwritten]

theorem copyBytes_outside {target source : ℕ} (outside : other < target ∨ target + count ≤ other) :
    copyBytes memory target source count other = memory other := by
  rw [copyBytes, if_neg (by omega)]

theorem copyBytes_inside {target source index : ℕ} (inside : index < count) :
    copyBytes memory target source count (target + index) = memory (source + index) := by
  rw [copyBytes, if_pos (by omega), Nat.add_sub_cancel_left]

end ByteMemory
