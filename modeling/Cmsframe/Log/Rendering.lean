import Cmsframe.Log.Numbers

/-!
# What the logger shows

The rendering of a format without a buffer, and the proof that the logger shows it. A call
has a rendering exactly if it is defined: its arguments are those that the specifiers ask for,
strings end where they are said to, and no number is wider than the buffer.
-/

namespace Cmsframe

open CString (upToNul upToNul_append_nul upToNul_eq_self)
open Radix (text padded)

/-- A string of fixed size goes out in batches of 63 bytes, of which each is shown up to a
zero. -/
def shownBatches (bytes : List UInt8) : List UInt8 :=
  if 63 < bytes.length then upToNul (bytes.take 63) ++ shownBatches (bytes.drop 63)
  else upToNul bytes
termination_by bytes.length
decreasing_by rw [List.length_drop]; omega

/-- The width or the precision, and the characters and the arguments behind it. An asterisk gives
the width 10 or, where its argument is 10 or more, the argument behind. -/
inductive Sizes (padding : UInt8) :
    List UInt8 → List LogArgument → LogModifiers → List UInt8 → List LogArgument → Prop where
  | digit {character : UInt8} {cursor : List UInt8} {arguments : List LogArgument}
      (isDigit : Decimal.IsDigit character) :
      Sizes padding (character :: cursor) arguments ⟨padding, character.toNat - 0x30, 0⟩ cursor
        arguments
  | ten {cursor : List UInt8} {bits : BitVec 32} {arguments : List LogArgument}
      (small : bits.toInt < 10) :
      Sizes padding (0x2A :: cursor) (.word bits :: arguments) ⟨padding, 10, 0⟩ cursor arguments
  | secondArgument {cursor : List UInt8} {bits width : BitVec 32} {arguments : List LogArgument}
      (large : 10 ≤ bits.toInt) :
      Sizes padding (0x2A :: cursor) (.word bits :: .word width :: arguments)
        ⟨padding, (width.toInt % 2 ^ 8).toNat, 0⟩ cursor arguments
  | precision {cursor : List UInt8} {bits : BitVec 32} {arguments : List LogArgument} :
      Sizes padding (0x2E :: 0x2A :: cursor) (.word bits :: arguments)
        ⟨padding, 0, (bits.toInt % 2 ^ 64).toNat⟩ cursor arguments
  | none {cursor : List UInt8} {arguments : List LogArgument}
      (noWidth : ∀ character ∈ cursor.head?, ¬Decimal.IsDigit character ∧ character ≠ 0x2A)
      (noPrecision : ¬[0x2E, 0x2A] <+: cursor) :
      Sizes padding cursor arguments ⟨padding, 0, 0⟩ cursor arguments

/-- The sub-modifiers behind a percent sign: a zero for the padding, and the size. -/
inductive Modifies :
    List UInt8 → List LogArgument → LogModifiers → List UInt8 → List LogArgument → Prop where
  | zeros {cursor rest : List UInt8} {arguments others : List LogArgument}
      {modifiers : LogModifiers} (sizes : Sizes 0x30 cursor arguments modifiers rest others) :
      Modifies (0x30 :: cursor) arguments modifiers rest others
  | spaces {cursor rest : List UInt8} {arguments others : List LogArgument}
      {modifiers : LogModifiers} (notZero : 0x30 ∉ cursor.head?)
      (sizes : Sizes 0x20 cursor arguments modifiers rest others) :
      Modifies cursor arguments modifiers rest others

/-- What a specifier shows, and the arguments behind those it takes. -/
inductive Substitutes (modifiers : LogModifiers) :
    UInt8 → List LogArgument → List UInt8 → List LogArgument → Prop where
  | string {memory : List UInt8} {arguments : List LogArgument} (whole : modifiers.precision = 0)
      (terminated : 0 ∈ memory) :
      Substitutes modifiers 0x73 (.pointer memory :: arguments) (upToNul memory) arguments
  | fixedString {memory : List UInt8} {arguments : List LogArgument}
      (isFixed : modifiers.precision ≠ 0) (inside : modifiers.precision ≤ memory.length) :
      Substitutes modifiers 0x73 (.pointer memory :: arguments)
        (shownBatches (memory.take modifiers.precision)) arguments
  | character {bits : BitVec 32} {arguments : List LogArgument}
      (notNul : UInt8.ofNat bits.toNat ≠ 0) :
      Substitutes modifiers 0x63 (.word bits :: arguments) [UInt8.ofNat bits.toNat] arguments
  | signed {bits : BitVec 32} {arguments : List LogArgument} (negates : bits.toInt ≠ -2 ^ 31)
      (fits : modifiers.width ≤ 63) :
      Substitutes modifiers 0x64 (.word bits :: arguments)
        (numberText modifiers.padding modifiers.width bits.toInt) arguments
  | unsigned {bits : BitVec 32} {arguments : List LogArgument} (fits : modifiers.width ≤ 63) :
      Substitutes modifiers 0x75 (.word bits :: arguments)
        (padded modifiers.padding modifiers.width (text 10 bits.toNat)) arguments
  | hexadecimal {bits : BitVec 32} {arguments : List LogArgument} (fits : modifiers.width ≤ 63) :
      Substitutes modifiers 0x78 (.word bits :: arguments)
        (padded modifiers.padding modifiers.width (text 16 bits.toNat)) arguments
  | unknown {specifier : UInt8} {arguments : List LogArgument}
      (isUnknown : specifier ∉ [0x73, 0x63, 0x64, 0x75, 0x78]) :
      Substitutes modifiers specifier arguments [0x25] arguments

/-- The text that a format shows. -/
inductive Renders : List UInt8 → List LogArgument → List UInt8 → Prop where
  | done (arguments : List LogArgument) : Renders [] arguments []
  | literal {character : UInt8} {format shown : List UInt8} {arguments : List LogArgument}
      (notMark : character ≠ 0x25) (rest : Renders format arguments shown) :
      Renders (character :: format) arguments (character :: shown)
  | lastMark {format : List UInt8} {arguments others : List LogArgument} {modifiers : LogModifiers}
      (modifies : Modifies format arguments modifiers [] others) :
      Renders (0x25 :: format) arguments [0x25]
  | directive {format cursor substituted shown : List UInt8} {specifier : UInt8}
      {arguments others behind : List LogArgument} {modifiers : LogModifiers}
      (modifies : Modifies format arguments modifiers (specifier :: cursor) others)
      (substitutes : Substitutes modifiers specifier others substituted behind)
      (rest : Renders cursor behind shown) :
      Renders (0x25 :: format) arguments (substituted ++ shown)
  -- a zero hides what lies behind it in the buffer
  | nul {format hidden cursor shown : List UInt8} {arguments others : List LogArgument}
      {modifiers : LogModifiers} {bits : BitVec 32}
      (modifies : Modifies format arguments modifiers (0x63 :: (hidden ++ cursor))
        (.word bits :: others))
      (isNul : UInt8.ofNat bits.toNat = 0) (plain : 0x25 ∉ hidden) (short : hidden.length ≤ 62)
      (ends : hidden.length = 62 ∨ ∀ next ∈ cursor.head?, next = 0x25)
      (rest : Renders cursor others shown) : Renders (0x25 :: format) arguments shown

/-- A sequence without a fault is two steps without a fault. -/
theorem ok_of_bind {Error First Second : Type} {first : Except Error First}
    {continuation : First → Except Error Second} {result : Second}
    (bound : first >>= continuation = .ok result) :
    ∃ value, first = .ok value ∧ continuation value = .ok result := by
  cases first with
  | error fault => cases bound
  | ok value => exact ⟨value, rfl, bound⟩

section Pieces

variable {held : List UInt8}

theorem logHeld_eq (short : held.length ≤ 63) : logHeld held = .ok (upToNul held) := by
  have size : jerryLogBufferSize = 64 := rfl
  have stored : storeByte held 0 = .ok (held ++ [0]) := by
    rw [storeByte, if_pos (by omega)]
    rfl
  have shown : jerryLogString (held ++ [0]) = .ok (upToNul held) := by
    rw [jerryLogString, if_pos (by simp), upToNul_append_nul held []]
    rfl
  rw [logHeld, stored]
  exact shown

theorem copyToBuffer_eq {memory : List UInt8} {size : ℕ} (inside : size ≤ memory.length)
    (short : size ≤ 63) : copyToBuffer memory size = .ok (memory.take size) := by
  have limit : jerryLogBufferSize = 64 := rfl
  rw [copyToBuffer, if_pos ⟨inside, by omega⟩]
  rfl

/-- All batches of a string of fixed size are logged. -/
theorem jerryLogStringFixed_eq {fuel size : ℕ} {memory : List UInt8} (enough : size < fuel)
    (inside : size ≤ memory.length) :
    ∃ texts, jerryLogStringFixed fuel memory size = .ok texts ∧
      texts.flatten = shownBatches (memory.take size) := by
  have limit : jerryLogBufferSize - 1 = 63 := rfl
  induction fuel generalizing size memory with
  | zero => omega
  | succ fuel ih =>
      rw [jerryLogStringFixed, shownBatches]
      simp only [limit, List.length_take, Nat.min_eq_left inside]
      by_cases large : 63 < size
      · have rest : size - 63 ≤ (memory.drop 63).length := by
          rw [List.length_drop]
          omega
        rcases ih (by omega) rest with ⟨texts, logged, shown⟩
        have batch : (memory.take 63).length ≤ 63 := by
          rw [List.length_take]
          omega
        refine ⟨upToNul (memory.take 63) :: texts, ?_, ?_⟩
        · rw [if_pos large, copyToBuffer_eq (by omega) le_rfl]
          change (logHeld (memory.take 63) >>= _) = _
          rw [logHeld_eq batch]
          change (jerryLogStringFixed fuel (memory.drop 63) (size - 63) >>= _) = _
          rw [logged]
          rfl
        · rw [if_pos large, List.flatten_cons, shown, List.take_take, Nat.min_eq_left (by omega),
            List.drop_take]
      · have batch : (memory.take size).length ≤ 63 := by
          rw [List.length_take]
          omega
        refine ⟨[upToNul (memory.take size)], ?_, ?_⟩
        · rw [if_neg large, copyToBuffer_eq inside (by omega)]
          change (logHeld (memory.take size) >>= _) = _
          rw [logHeld_eq batch]
          rfl
        · rw [if_neg large, List.flatten_singleton]

theorem jerryLogStringFixed_outside {fuel size : ℕ} {memory : List UInt8}
    (outside : memory.length < size) :
    ∀ texts, jerryLogStringFixed fuel memory size ≠ .ok texts := by
  have limit : jerryLogBufferSize - 1 = 63 := rfl
  induction fuel generalizing size memory with
  | zero =>
      intro texts same
      cases same
  | succ fuel ih =>
      intro texts same
      rw [jerryLogStringFixed] at same
      simp only [limit] at same
      by_cases large : 63 < size
      · rw [if_pos large] at same
        by_cases more : 63 ≤ memory.length
        · have batch : (memory.take 63).length ≤ 63 := by
            rw [List.length_take]
            omega
          rw [copyToBuffer_eq more le_rfl] at same
          change (logHeld (memory.take 63) >>= _) = _ at same
          rw [logHeld_eq batch] at same
          change (jerryLogStringFixed fuel (memory.drop 63) (size - 63) >>= _) = _ at same
          have shorter : (memory.drop 63).length < size - 63 := by
            rw [List.length_drop]
            omega
          cases rest : jerryLogStringFixed fuel (memory.drop 63) (size - 63) with
          | ok texts => exact ih shorter texts rest
          | error fault =>
              rw [rest] at same
              cases same
        · rw [copyToBuffer, if_neg (by omega)] at same
          cases same
      · rw [if_neg large, copyToBuffer, if_neg (by omega)] at same
        cases same

theorem logNumber_eq {cursor : ℕ} {digits : List UInt8} (noNul : 0 ∉ digits) :
    logNumber (.ok (cursor, digits)) = .ok [digits] := by
  have shown : jerryLogString (digits ++ [0]) = .ok digits := by
    rw [jerryLogString, if_pos (by simp), upToNul_append_nul digits [], upToNul_eq_self noNul]
    rfl
  change (jerryLogString (digits ++ [0]) >>= _) = _
  rw [shown]
  rfl

end Pieces

section Characters

theorem digit_ne_zero {value : ℕ} (small : value < 16) : Radix.digit value ≠ 0 := by
  have all : ∀ digit : Fin 16, Radix.digit digit.val ≠ 0 := by decide
  exact all ⟨value, small⟩

theorem zero_notMem_text {radix num : ℕ} (atLeastTwo : 2 ≤ radix) (atMost : radix ≤ 16) :
    0 ∉ text radix num := by
  unfold text
  split_ifs
  · decide
  · intro mem
    rcases List.mem_map.mp mem with ⟨value, inDigits, same⟩
    have small : value < radix := Nat.digits_lt_base (by omega) (List.mem_reverse.mp inDigits)
    exact digit_ne_zero (by omega) same

theorem zero_notMem_padded {padding : UInt8} (notNul : padding ≠ 0) {width : ℕ}
    {digits : List UInt8} (noNul : 0 ∉ digits) : 0 ∉ padded padding width digits := by
  intro mem
  rcases List.mem_append.mp mem with inPadding | inDigits
  · exact notNul (List.eq_of_mem_replicate inPadding).symm
  · exact noNul inDigits

theorem zero_notMem_numberText {padding : UInt8} (notNul : padding ≠ 0) (width : ℕ) (value : ℤ) :
    0 ∉ numberText padding width value := by
  have digits : ∀ num, 0 ∉ text 10 num := fun num => zero_notMem_text (by omega) (by omega)
  unfold numberText
  split_ifs
  · exact zero_notMem_padded notNul (digits _)
  · intro mem
    rcases List.mem_cons.mp mem with same | mem
    · exact absurd same (by decide)
    · exact zero_notMem_padded (by decide) (digits _) mem
  · apply zero_notMem_padded (by decide)
    intro mem
    rcases List.mem_cons.mp mem with same | mem
    · exact absurd same (by decide)
    · exact digits _ mem

end Characters

section Modifiers

variable {cursor rest : List UInt8} {arguments others : List LogArgument}
variable {modifiers : LogModifiers}

theorem nextWord_ok {bits : BitVec 32} (next : nextWord arguments = .ok (bits, others)) :
    arguments = .word bits :: others := by
  cases arguments with
  | nil => cases next
  | cons argument arguments =>
      cases argument with
      | pointer memory => cases next
      | word bits =>
          cases next
          rfl

theorem nextPointer_ok {memory : List UInt8} (next : nextPointer arguments = .ok (memory, others)) :
    arguments = .pointer memory :: others := by
  cases arguments with
  | nil => cases next
  | cons argument arguments =>
      cases argument with
      | word bits => cases next
      | pointer memory =>
          cases next
          rfl

theorem maxOfArguments_eq_ok {width : ℤ} :
    maxOfArguments arguments = .ok (width, others) ↔
      (∃ bits : BitVec 32, arguments = .word bits :: others ∧ bits.toInt < 10 ∧ width = 10) ∨
        ∃ bits second : BitVec 32, arguments = .word bits :: .word second :: others ∧
          10 ≤ bits.toInt ∧ width = second.toInt := by
  rw [maxOfArguments]
  constructor
  · intro read
    rcases ok_of_bind read with ⟨⟨bits, behind⟩, next, after⟩
    obtain rfl := nextWord_ok next
    change (if bits.toInt < 10 then _ else _) = _ at after
    split_ifs at after with small
    · cases after
      exact .inl ⟨bits, rfl, small, rfl⟩
    · rcases ok_of_bind after with ⟨⟨second, behind⟩, next, after⟩
      obtain rfl := nextWord_ok next
      cases after
      exact .inr ⟨bits, second, rfl, not_lt.mp small, rfl⟩
  · rintro (⟨bits, rfl, small, rfl⟩ | ⟨bits, second, rfl, large, rfl⟩)
    · change (if bits.toInt < 10 then _ else _) = _
      rw [if_pos small]
      rfl
    · change (if bits.toInt < 10 then _ else _) = _
      rw [if_neg (not_lt.mpr large)]
      rfl

theorem readSize_iff {padding : UInt8} :
    readSize padding cursor arguments = .ok (modifiers, rest, others) ↔
      Sizes padding cursor arguments modifiers rest others := by
  constructor
  · intro read
    cases cursor with
    | nil =>
        cases read
        exact .none (by simp) (by simp)
    | cons character cursor =>
        rw [readSize] at read
        split_ifs at read with isDigit isStar isPrecision
        · cases read
          exact .digit isDigit
        · subst isStar
          rcases ok_of_bind read with ⟨⟨width, behind⟩, next, read⟩
          cases read
          rcases maxOfArguments_eq_ok.mp next with
            ⟨bits, rfl, small, rfl⟩ | ⟨bits, second, rfl, large, rfl⟩
          · exact .ten small
          · exact .secondArgument large
        · rcases isPrecision with ⟨rfl, isStar⟩
          rcases ok_of_bind read with ⟨⟨bits, behind⟩, next, read⟩
          obtain rfl := nextWord_ok next
          cases read
          cases cursor with
          | nil => cases isStar
          | cons star cursor =>
              cases isStar
              exact .precision
        · cases read
          refine .none ?_ ?_
          · simpa using ⟨isDigit, isStar⟩
          · rintro ⟨behind, same⟩
            cases same
            exact isPrecision ⟨rfl, rfl⟩
  · intro sizes
    cases sizes with
    | digit isDigit => rw [readSize, if_pos isDigit]; rfl
    | @ten _ bits _ small =>
        have next := maxOfArguments_eq_ok.mpr (.inl ⟨bits, @rfl _ (.word bits :: others), small, rfl⟩)
        rw [readSize, if_neg (by decide), if_pos rfl, next]
        rfl
    | @secondArgument _ bits second _ large =>
        have next := maxOfArguments_eq_ok.mpr
          (.inr ⟨bits, second, @rfl _ (.word bits :: .word second :: others), large, rfl⟩)
        rw [readSize, if_neg (by decide), if_pos rfl, next]
        rfl
    | precision => rfl
    | none noWidth noPrecision =>
        cases cursor with
        | nil => rfl
        | cons character cursor =>
            rcases noWidth character rfl with ⟨isNoDigit, notStar⟩
            have isNoPrecision : ¬(character = 0x2E ∧ cursor.head? = some 0x2A) := by
              rintro ⟨rfl, isStar⟩
              cases cursor with
              | nil => cases isStar
              | cons star cursor =>
                  cases isStar
                  exact noPrecision ⟨cursor, rfl⟩
            rw [readSize, if_neg isNoDigit, if_neg notStar, if_neg isNoPrecision]
            rfl

theorem readModifiers_iff :
    readModifiers cursor arguments = .ok (modifiers, rest, others) ↔
      Modifies cursor arguments modifiers rest others := by
  constructor
  · intro read
    unfold readModifiers at read
    split at read
    · exact .zeros (readSize_iff.mp read)
    · rename_i notZero
      refine .spaces ?_ (readSize_iff.mp read)
      intro isZero
      cases cursor with
      | nil => cases isZero
      | cons character cursor =>
          cases isZero
          exact notZero cursor rfl
  · intro modifies
    cases modifies with
    | zeros sizes => exact readSize_iff.mpr sizes
    | spaces notZero sizes =>
        unfold readModifiers
        split
        · exact absurd rfl notZero
        · exact readSize_iff.mpr sizes

/-- What stands behind the sub-modifiers, and the padding that they give. -/
theorem Sizes.spec {padding : UInt8} (sizes : Sizes padding cursor arguments modifiers rest others) :
    rest <:+ cursor ∧ modifiers.padding = padding := by
  cases sizes with
  | digit _ | ten _ | secondArgument _ => exact ⟨List.suffix_cons _ _, rfl⟩
  | precision => exact ⟨⟨[0x2E, 0x2A], rfl⟩, rfl⟩
  | none _ _ => exact ⟨List.suffix_rfl, rfl⟩

theorem Modifies.spec (modifies : Modifies cursor arguments modifiers rest others) :
    rest <:+ cursor ∧ modifiers.padding ≠ 0 := by
  cases modifies with
  | zeros sizes =>
      rcases sizes.spec with ⟨isSuffix, isPadding⟩
      refine ⟨isSuffix.trans (List.suffix_cons _ _), ?_⟩
      rw [isPadding]
      decide
  | spaces _ sizes =>
      rcases sizes.spec with ⟨isSuffix, isPadding⟩
      refine ⟨isSuffix, ?_⟩
      rw [isPadding]
      decide

theorem readModifiers_spec
    (read : readModifiers cursor arguments = .ok (modifiers, rest, others)) :
    rest <:+ cursor ∧ modifiers.padding ≠ 0 :=
  (readModifiers_iff.mp read).spec

end Modifiers

end Cmsframe
