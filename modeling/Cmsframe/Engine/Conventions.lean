import Cmsframe.Engine.Realm

/-!
# Calling conventions

Three conventions for failure meet in the conversions. A function that yields a value
returns `ECMA_VALUE_ERROR`, a function that yields a string returns the null pointer,
and in both cases the exception is pending in the context; an API function returns
an exception reference instead, and leaves nothing pending. `ReturnsValue` and
`ReturnsString` state the first two, together with what the caller then owns, and
the theorems below show that the engine's own functions keep them.
-/

namespace Cmsframe

open Interaction
open Unicode (CodeUnit asciiUnits)

/-- The frame after a function that yields a value, called with `held` owned and nothing
pending: the caller owns the value, or the marker comes with a pending exception. -/
def ReturnsValue (held lent : Multiset Pointer) (value : EcmaValue) (after : Frame) : Prop :=
  (value = .error ∧ ∃ thrown, after = ⟨some thrown, held, lent⟩) ∨
    (value.specDefined = true ∧ after = ⟨none, held + value.references, lent⟩)

/-- The frame after a function that yields a string or the null pointer. -/
def ReturnsString (held lent : Multiset Pointer) (string : Option EcmaString)
    (after : Frame) : Prop :=
  (string = none ∧ ∃ thrown, after = ⟨some thrown, held, lent⟩) ∨
    (∃ result, string = some result ∧ after = ⟨none, held + result.references, lent⟩)

/-- The null pointer and a pending exception come together. -/
theorem returnsString_none_iff {held lent : Multiset Pointer} {string : Option EcmaString}
    {after : Frame} (returns : ReturnsString held lent string after) :
    string = none ↔ after.pending ≠ none := by
  rcases returns with ⟨rfl, thrown, rfl⟩ | ⟨result, rfl, rfl⟩
  · exact iff_of_true rfl nofun
  · exact iff_of_false nofun (by simp)

/-- A new reference to a string of the given text, made without running user code. -/
def YieldsString {Script : Type} (pending : Option Thrown) (held lent : Multiset Pointer)
    (before : World Script) (text : List CodeUnit) (answer : EcmaString × Frame)
    (after : World Script) : Prop :=
  answer.1.units = text ∧ answer.2 = ⟨pending, held + answer.1.references, lent⟩ ∧
    after.script = before.script

theorem Frame.Alive.of_le_held {pending : Option Thrown} {held lent references : Multiset Pointer}
    (owned : references ≤ held) : (⟨pending, held, lent⟩ : Frame).Alive references := by
  intro address mem
  exact .inl (Multiset.mem_of_le owned mem)

theorem Frame.Alive.mono {pending pending' : Option Thrown}
    {held more lent references : Multiset Pointer}
    (alive : (⟨pending, held, lent⟩ : Frame).Alive references) (le : held ≤ more) :
    (⟨pending', more, lent⟩ : Frame).Alive references := by
  intro address mem
  rcases alive address mem with inHeld | inLent
  · exact .inl (Multiset.mem_of_le le inHeld)
  · exact .inr inLent

theorem Frame.Alive.add {frame : Frame} {left right : Multiset Pointer}
    (aliveLeft : frame.Alive left) (aliveRight : frame.Alive right) :
    frame.Alive (left + right) := by
  intro address mem
  rcases Multiset.mem_add.mp mem with inLeft | inRight
  · exact aliveLeft address inLeft
  · exact aliveRight address inRight

@[simp]
theorem Frame.alive_zero (frame : Frame) : frame.Alive 0 := by
  intro address mem
  exact absurd mem (Multiset.notMem_zero address)

/-- The text of a number: what `ecma_new_ecma_string_from_number` yields. -/
def numberUnits (numbers : NumberConversion) (number : EcmaNumber) : List CodeUnit :=
  if number.eqInt number.toUint32 then
    asciiUnits (Decimal.decimal number.toUint32)
  else
    asciiUnits (ecmaNumberToUtf8String numbers number)

/-- The text of a BigInt. -/
def bigintUnits (value : ℤ) : List CodeUnit :=
  asciiUnits (if value < 0 then 0x2D :: Decimal.decimal value.natAbs
    else Decimal.decimal value.natAbs)

/-- The string a value other than an object converts to, if any. -/
def primitiveUnits {Script : Type} (realm : Realm Script) : EcmaValue → Option (List CodeUnit)
  | .string string => some string.units
  | .integer number =>
      some (if number < 0 then numberUnits realm.numbers (EcmaNumber.ofInt number)
        else asciiUnits (Decimal.decimal number.toNat))
  | .float _ number => some (numberUnits realm.numbers number)
  | .simple .undefined => some (magicText "undefined")
  | .simple .null => some (magicText "null")
  | .simple .true => some (magicText "true")
  | .simple .false => some (magicText "false")
  | .bigintZero => some (bigintUnits 0)
  | .bigint _ value =>
      if value = 0 ∨ realm.bigintFits value then some (bigintUnits value) else none
  | _ => none

/-- An integer that is encoded in the value is written as the number it is. -/
theorem primitiveUnits_integer {Script : Type} (realm : Realm Script) {number : ℤ}
    (encoded : isIntegerNumber number = true) :
    primitiveUnits realm (.integer number) =
      some (numberUnits realm.numbers (EcmaNumber.ofInt number)) := by
  by_cases negative : number < 0
  · simp [primitiveUnits, negative]
  · obtain ⟨natural, rfl⟩ := Int.eq_ofNat_of_zero_le (not_lt.mp negative)
    have small : natural < 2 ^ 32 := by
      simp only [isIntegerNumber, Bool.and_eq_true, decide_eq_true_eq] at encoded
      omega
    have asUint32 : (EcmaNumber.ofInt natural).toUint32 = natural := by
      have floor : (natural : ℚ).floor.toNat = natural := by
        simp [Rat.floor]
      have notNegative : ¬(natural : ℚ) < 0 := not_lt.mpr (Nat.cast_nonneg natural)
      simp only [EcmaNumber.ofInt, EcmaNumber.toUint32, Int.cast_natCast, Nat.abs_cast,
        notNegative, if_false, floor, Nat.mod_eq_of_lt small]
    have same : (EcmaNumber.ofInt natural).eqInt natural = true := by
      simp [EcmaNumber.ofInt, EcmaNumber.eqInt]
    simp only [primitiveUnits, negative, if_false, numberUnits, asUint32, same, if_true,
      Int.toNat_natCast]

namespace Native

variable {Script : Type} (realm : Realm Script)
variable (pending : Option Thrown) (held lent : Multiset Pointer) (world : World Script)

theorem settles_ecmaNewEcmaStringFromUint32 (number : ℕ) :
    ((ecmaNewEcmaStringFromUint32 number).run ⟨pending, held, lent⟩ world).Settles
      (YieldsString pending held lent world (asciiUnits (Decimal.decimal number))) := by
  unfold ecmaNewEcmaStringFromUint32
  split_ifs
  · simp [YieldsString, EcmaString.units, EcmaString.references]
  · simp [YieldsString, EcmaString.units, EcmaString.references]

/-- Bytes that read as an array index are the code units of that number. -/
theorem units_of_index {units : List CodeUnit} {index : ℕ}
    (isIndex : ecmaStringToArrayIndex (Unicode.cesu8 units) = some index) :
    asciiUnits (Decimal.decimal index) = units := by
  have bytes := (decimal_of_ecmaStringToArrayIndex isIndex).1
  have digits : ∀ byte ∈ Unicode.cesu8 units, byte.toNat < 0x80 := by
    intro byte mem
    rw [← bytes] at mem
    have digit := Decimal.isDigit_of_mem_decimal mem
    unfold Decimal.IsDigit at digit
    omega
  rw [bytes]
  exact Unicode.asciiUnits_cesu8 digits

theorem settles_ecmaNewEcmaString (units : List CodeUnit) :
    ((ecmaNewEcmaString realm units).run ⟨pending, held, lent⟩ world).Settles
      (YieldsString pending held lent world units) := by
  unfold ecmaNewEcmaString
  split_ifs
  · simp [YieldsString, EcmaString.units, EcmaString.references]
  · cases isIndex : ecmaStringToArrayIndex (Unicode.cesu8 units) with
    | none => simp [YieldsString, EcmaString.units, EcmaString.references]
    | some index =>
        have settles := settles_ecmaNewEcmaStringFromUint32 pending held lent world index
        rw [units_of_index isIndex] at settles
        exact settles

theorem settles_ecmaNewEcmaStringFromNumber (number : EcmaNumber) :
    ((ecmaNewEcmaStringFromNumber realm number).run ⟨pending, held, lent⟩ world).Settles
      (YieldsString pending held lent world (numberUnits realm.numbers number)) := by
  unfold ecmaNewEcmaStringFromNumber numberUnits
  split_ifs
  · exact settles_ecmaNewEcmaStringFromUint32 pending held lent world number.toUint32
  · rcases number with _ | (_ | _) | _ | value
    · have text : magicText "NaN" = asciiUnits (asciiBytes "NaN") := by decide
      exact ⟨text, by simp [EcmaString.references], rfl⟩
    · have text : magicText "Infinity" = asciiUnits ([] ++ asciiBytes "Infinity") := by decide
      exact ⟨text, by simp [EcmaString.references], rfl⟩
    · have text : magicText "-Infinity" = asciiUnits ([0x2D] ++ asciiBytes "Infinity") := by
        decide
      exact ⟨text, by simp [EcmaString.references], rfl⟩
    · simp [YieldsString, EcmaString.units, EcmaString.references]
    · simp [YieldsString, EcmaString.units, EcmaString.references]

theorem settles_ecmaMakeNumberValue (number : EcmaNumber) :
    ((ecmaMakeNumberValue number).run ⟨none, held, lent⟩ world).Settles
      fun answer after => answer.1.specDefined = true ∧
        answer.2 = ⟨none, held + answer.1.references, lent⟩ ∧ after.script = world.script := by
  unfold ecmaMakeNumberValue
  cases number with
  | finite value =>
      simp only
      split_ifs
      · simp [EcmaValue.specDefined, EcmaValue.references]
      · simp [EcmaValue.specDefined, EcmaValue.references]
  | _ => simp [EcmaValue.specDefined, EcmaValue.references]

/-- The string conversion of a value that is not an object runs no user code: it yields the
text of the value, or raises an exception when there is none. -/
def ConvertsTo (text : Option (List CodeUnit)) (held lent : Multiset Pointer)
    (before : World Script) (answer : Option EcmaString × Frame) (after : World Script) :
    Prop :=
  answer.1.map EcmaString.units = text ∧ ReturnsString held lent answer.1 answer.2 ∧
    after.script = before.script

theorem settles_some {text : List CodeUnit} {make : Native Script EcmaString}
    (settles : (make.run ⟨none, held, lent⟩ world).Settles
      (YieldsString none held lent world text)) :
    ((do return some (← make)).run ⟨none, held, lent⟩ world).Settles
      (ConvertsTo (some text) held lent world) := by
  apply settles.bind
  rintro ⟨string, frame⟩ after ⟨sameText, sameFrame, sameScript⟩
  simp only at sameText sameFrame
  subst sameFrame
  exact ⟨by simp [sameText], .inr ⟨string, rfl, rfl⟩, sameScript⟩

theorem settles_ecmaBigintToString (value : ℤ) :
    ((ecmaBigintToString realm value).run ⟨none, held, lent⟩ world).Settles
      (ConvertsTo (if value = 0 ∨ realm.bigintFits value then some (bigintUnits value) else none)
        held lent world) := by
  unfold ecmaBigintToString
  by_cases isZero : value = 0
  · subst isZero
    refine ⟨rfl, .inr ⟨.uint 0, rfl, ?_⟩, rfl⟩
    simp [EcmaString.references]
  · by_cases fits : realm.bigintFits value = true
    · simp only [isZero, fits, if_true, if_false, false_or]
      exact settles_some held lent world
        (settles_ecmaNewEcmaString realm none held lent world (bigintUnits value))
    · have noRoom : realm.bigintFits value = false := by simpa using fits
      simp [isZero, noRoom, ConvertsTo, ReturnsString]

theorem settles_ecmaOpToStringPrimitive {value : EcmaValue} (valid : value.specDefined = true)
    (notObject : value.isObject = false)
    (alive : (⟨none, held, lent⟩ : Frame).Alive value.references) :
    ((ecmaOpToStringPrimitive realm value).run ⟨none, held, lent⟩ world).Settles
      (ConvertsTo (primitiveUnits realm value) held lent world) := by
  unfold ecmaOpToStringPrimitive
  simp only [valid, Routine.run_bind, run_jerryAssert_true, Program.bind_done]
  rcases value with simple | number | ⟨address, number⟩ | string | ⟨address, description⟩ | _ |
    ⟨address, number⟩ | object | ⟨address, inner, abort⟩
  · cases simple with
    | undefined | null | true | false =>
        simp [ConvertsTo, ReturnsString, primitiveUnits, EcmaString.references,
          EcmaString.units]
    | _ => cases valid
  · by_cases negative : number < 0
    · simp only [negative, if_true, primitiveUnits]
      exact settles_some held lent world
        (settles_ecmaNewEcmaStringFromNumber realm none held lent world _)
    · simp only [negative, if_false, primitiveUnits]
      exact settles_some held lent world
        (settles_ecmaNewEcmaStringFromUint32 none held lent world _)
  · have touched := run_touch _ world alive
    simp only [EcmaValue.references] at touched
    simp only [Routine.run_bind, touched, Program.bind_done]
    exact settles_some held lent world
      (settles_ecmaNewEcmaStringFromNumber realm none held lent world number)
  · simp only [Routine.run_bind, run_ecmaCopyValue _ _ alive, Program.bind_done]
    exact ⟨rfl, .inr ⟨string, rfl, rfl⟩, rfl⟩
  · simp [ConvertsTo, ReturnsString, primitiveUnits]
  · exact settles_ecmaBigintToString realm held lent world 0
  · have touched := run_touch _ world alive
    simp only [EcmaValue.references] at touched
    simp only [Routine.run_bind, touched, Program.bind_done]
    exact settles_ecmaBigintToString realm held lent world number
  · cases notObject
  · cases valid

section UserCode

variable {tolerated : Fault → Prop}

/-- Whatever user code does, a throw leaves exactly one pending exception. -/
theorem ensures_callUser {α : Type} (code : UserCode Script α) :
    ((callUser code).run ⟨none, held, lent⟩ world).Ensures tolerated fun answer _ =>
      (answer.1 = none ∧ ∃ thrown, answer.2 = ⟨some thrown, held, lent⟩) ∨
        (∃ result, answer.1 = some result ∧ answer.2 = ⟨none, held, lent⟩) := by
  have ran : ((code world).relax.bind fun outcome changed =>
      .done (outcome, (⟨none, held, lent⟩ : Frame)) changed).Ensures tolerated
      fun answer _ => answer.2 = ⟨none, held, lent⟩ := by
    apply (Program.ensures_relax (code world)).bind
    intro outcome changed _
    rfl
  apply ran.bind
  rintro ⟨outcome, frame⟩ changed sameFrame
  simp only at sameFrame
  subst sameFrame
  cases outcome with
  | ok result => exact .inr ⟨result, rfl, rfl⟩
  | error thrown =>
      simp only [Routine.run_bind, run_acquire, Program.bind_done, run_jcontextRaiseException,
        Routine.run_pure, Program.ensures_done]
      exact .inl ⟨trivial, thrown, rfl⟩

theorem ensures_callUserValue (code : UserCode Script ScriptValue) :
    ((callUserValue code).run ⟨none, held, lent⟩ world).Ensures tolerated
      fun answer _ => ReturnsValue held lent answer.1 answer.2 := by
  apply (ensures_callUser held lent world code).bind
  rintro ⟨outcome, frame⟩ changed (⟨noResult, thrown, sameFrame⟩ | ⟨result, some, sameFrame⟩)
  · simp only at noResult sameFrame
    subst noResult sameFrame
    exact .inl ⟨rfl, thrown, rfl⟩
  · simp only at some sameFrame
    subst some sameFrame
    exact .inr ⟨result.specDefined, rfl⟩

/-- `ecma_op_to_string` keeps its convention on every script value. -/
theorem ensures_ecmaOpToString {value : EcmaValue} (valid : value.specDefined = true)
    (alive : (⟨none, held, lent⟩ : Frame).Alive value.references) :
    ((ecmaOpToString realm value).run ⟨none, held, lent⟩ world).Ensures tolerated
      fun answer _ => ReturnsString held lent answer.1 answer.2 := by
  by_cases isObject : value.isObject = true
  · rcases value with _ | _ | _ | _ | _ | _ | _ | object | _ <;> try cases isObject
    have touched := run_touch _ world alive
    simp only [EcmaValue.references] at touched
    simp only [ecmaOpToString, Routine.run_bind, touched, Program.bind_done]
    apply (ensures_callUser held lent world (realm.defaultValue object)).bind
    rintro ⟨outcome, frame⟩ changed (⟨noResult, thrown, sameFrame⟩ | ⟨result, some, sameFrame⟩)
    · simp only at noResult sameFrame
      subst noResult sameFrame
      exact .inl ⟨rfl, thrown, rfl⟩
    · simp only at some sameFrame
      subst some sameFrame
      rcases result with ⟨⟨primitive, primitiveValid⟩, notObject⟩
      simp only [Bool.not_eq_true] at notObject
      simp only [Routine.run_bind, run_acquire, Program.bind_done]
      have owned : (⟨none, held + primitive.references, lent⟩ : Frame).Alive
          primitive.references := Frame.Alive.of_le_held (Multiset.le_add_left _ _)
      apply (settles_ecmaOpToStringPrimitive realm _ _ changed primitiveValid notObject
        owned).ensures.bind
      rintro ⟨string, frame⟩ changed ⟨_, returns, _⟩
      simp only at returns
      simp only [ecmaFreeValue_eq_release primitiveValid, Routine.run_pure]
      rcases returns with ⟨rfl, thrown, rfl⟩ | ⟨result, rfl, rfl⟩
      · simp only [run_release_acquired, Program.bind_done, Program.ensures_done]
        exact .inl ⟨rfl, thrown, rfl⟩
      · simp only [add_right_comm held, run_release_acquired, Program.bind_done,
          Program.ensures_done]
        exact .inr ⟨result, rfl, rfl⟩
  · have notObject : value.isObject = false := by simpa using isObject
    have same : ecmaOpToString realm value = ecmaOpToStringPrimitive realm value := by
      cases value with
      | object object => cases notObject
      | _ => rfl
    rw [same]
    apply (settles_ecmaOpToStringPrimitive realm held lent world valid notObject
      alive).ensures.mono
    rintro ⟨string, frame⟩ after ⟨_, returns, _⟩
    exact returns

end UserCode

end Native

end Cmsframe
