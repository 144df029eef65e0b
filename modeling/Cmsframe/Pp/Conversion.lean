import Cmsframe.Json.Contract
import Cmsframe.Pp.Routines
import Cmsframe.Print.Text

/-!
# The conversion of one argument

`convertArgument` says what `pp` is meant to print for a value: an object is
serialised, any failure of the serialisation is passed on, and an object without a
JSON form is a syntax error. `cms_pp_value` is compared with it in one equation,
from which everything about `pp` below is derived: the two go the same way, except
that the code stops at an assertion where the conversion of an object fails.
-/

namespace Cmsframe

open Interaction

namespace Native

variable {Script : Type} (realm : Realm Script) (fuel : ℕ)

/-- The string to print for a value; `none` when an exception is pending instead. -/
def convertArgument (value : EcmaValue) : Native Script (Option EcmaString) := do
  match value with
  | .symbol address description =>
      return some (← ecmaGetSymbolDescriptiveString realm address description)
  | .object object =>
      let result ← ecmaBuiltinJsonStringifyNoOpts realm fuel (.object object)
      match result with
      | .string string => return some string
      | _ =>
          if result = .undefined then
            let _ ← ecmaRaiseStandardError .syntaxError .jsonStringifyError
          return none
  | _ => ecmaOpToStringPrimitive realm value

/-- What `cms_pp_value` does with the converted string. -/
def printConverted (value : EcmaValue) : Option EcmaString → Native Script EcmaValue
  | some string => printString cmsPrintBufferSize bufferedPrint (.string string)
  | none => if value.isObject then Routine.fail .assertion else ecmaCreateExceptionFromContext

variable {held lent : Multiset Pointer} (world : World Script)

theorem settles_ecmaGetSymbolDescriptiveString {address : Pointer}
    (description : Option (List Unicode.CodeUnit))
    (alive : (⟨none, held, lent⟩ : Frame).Alive {address}) :
    ((ecmaGetSymbolDescriptiveString realm address description).run
      ⟨none, held, lent⟩ world).Settles (YieldsString none held lent world
        (magicText "Symbol(" ++ description.getD [] ++ magicText ")")) := by
  simp only [ecmaGetSymbolDescriptiveString, Routine.run_bind, run_touch _ _ alive,
    Program.bind_done]
  exact settles_ecmaNewEcmaString realm none held lent world _

/-- The re-implemented branches of `cms_op_to_string` are those of `ecma_op_to_string`. -/
theorem cmsOpToString_of_not_object {value : EcmaValue} (notObject : value.isObject = false) :
    cmsOpToString realm fuel value = ecmaOpToStringPrimitive realm value := by
  cases value with
  | object object => cases notObject
  | simple simple => cases simple <;> rfl
  | exception address value abort => rfl
  | _ => rfl

/-- A serialised object is converted once more, which only adds and removes a reference to
the string. Every other result of the serialisation is no script value and ends the
process. -/
theorem run_cmsOpToString_object {object : EcmaObject}
    (alive : (⟨none, held, lent⟩ : Frame).Alive {object.address}) :
    (cmsOpToString realm fuel (.object object)).run ⟨none, held, lent⟩ world =
      ((ecmaBuiltinJsonStringifyNoOpts realm fuel (.object object)).run
        ⟨none, held, lent⟩ world).bind fun answer changed =>
          match answer.1 with
          | .string string => .done (some string, answer.2) changed
          | _ => .fault .assertion := by
  have returns : ((ecmaBuiltinJsonStringifyNoOpts realm fuel (.object object)).run
      ⟨none, held, lent⟩ world).Ensures (fun _ => True) fun answer _ =>
        StringifyReturns held lent answer.1 answer.2 :=
    ensures_ecmaBuiltinJsonStringifyNoOpts realm world trivial fuel rfl alive
  simp only [cmsOpToString, EcmaValue.specDefined, EcmaValue.isObject, Routine.run_bind,
    run_jerryAssert_true, Program.bind_done]
  apply returns.bind_congr
  rintro ⟨result, frame⟩ changed (⟨isError, thrown, rfl⟩ | ⟨isUndefined, rfl⟩ |
    ⟨string, isString, rfl⟩)
  · simp only at isError
    subst isError
    rfl
  · simp only at isUndefined
    subst isUndefined
    simp only [if_true, run_jerryThrowSz, Program.bind_done]
    rfl
  · simp only at isString
    subst isString
    have owned : (⟨none, held + string.references, lent⟩ : Frame).Alive
      (EcmaValue.string string).references := Frame.Alive.of_le_held (Multiset.le_add_left _ _)
    have freed : (ecmaFreeValue (.string string) : Native Script Unit) =
      release string.references := rfl
    simp only [reduceCtorEq, if_false, Routine.run_pure, Program.bind_done, ecmaOpToString,
      ecmaOpToStringPrimitive, EcmaValue.specDefined, Routine.run_bind, run_jerryAssert_true,
      run_ecmaCopyValue _ _ owned, EcmaValue.references_string, freed, run_release_acquired]

/-- Whatever user code does, a converted argument is a new reference to a string, and a
failed conversion leaves one exception pending. -/
theorem ensures_convertArgument {tolerated : Fault → Prop} (tolerates : tolerated .outOfFuel)
    {value : EcmaValue} (valid : value.specDefined = true)
    (alive : (⟨none, held, lent⟩ : Frame).Alive value.references) :
    ((convertArgument realm fuel value).run ⟨none, held, lent⟩ world).Ensures tolerated
      fun answer _ => ReturnsString held lent answer.1 answer.2 := by
  cases value with
  | symbol address description =>
      apply (settles_some held lent world
        (settles_ecmaGetSymbolDescriptiveString realm world description alive)).ensures.mono
      rintro ⟨string, frame⟩ after ⟨_, returns, _⟩
      exact returns
  | object object =>
      simp only [convertArgument, Routine.run_bind]
      apply (ensures_ecmaBuiltinJsonStringifyNoOpts realm world tolerates fuel valid alive).bind
      rintro ⟨result, frame⟩ changed (⟨isError, thrown, rfl⟩ | ⟨isUndefined, rfl⟩ |
        ⟨string, isString, rfl⟩)
      · simp only at isError
        subst isError
        exact .inl ⟨rfl, thrown, rfl⟩
      · simp only at isUndefined
        subst isUndefined
        simp only [if_true, Routine.run_bind, run_ecmaRaiseStandardError, Program.bind_done,
          Routine.run_pure]
        exact .inl ⟨rfl, _, rfl⟩
      · simp only at isString
        subst isString
        exact .inr ⟨string, rfl, rfl⟩
  | _ =>
      apply (settles_ecmaOpToStringPrimitive realm held lent world valid rfl alive).ensures.mono
      rintro ⟨string, frame⟩ after ⟨_, returns, _⟩
      exact returns

theorem cmsPpValue_via_cmsValueToString {value : EcmaValue}
    (notSymbol : ∀ address description, value ≠ .symbol address description) :
    cmsPpValue realm fuel value = (do
      let string ← cmsValueToString realm fuel value
      match string with
      | .exception .. => return string
      | _ => printString cmsPrintBufferSize bufferedPrint string) := by
  cases value with
  | symbol address description => exact absurd rfl (notSymbol address description)
  | _ => rfl

/-- Apart from symbols, `cms_pp_value` prints what `cms_op_to_string` returns. -/
theorem cmsPpValue_eq {value : EcmaValue} (valid : value.specDefined = true)
    (notSymbol : ∀ address description, value ≠ .symbol address description) :
    cmsPpValue realm fuel value = (do
      match ← cmsOpToString realm fuel value with
      | none => ecmaCreateExceptionFromContext
      | some string => printString cmsPrintBufferSize bufferedPrint (.string string)) := by
  have converted : cmsValueToString realm fuel value = (do
      match ← cmsOpToString realm fuel value with
      | none => ecmaCreateExceptionFromContext
      | some string => return .string string) := by
    cases value with
    | exception address value abort => cases valid
    | _ => rfl
  rw [cmsPpValue_via_cmsValueToString realm fuel notSymbol, converted, bind_assoc]
  congr 1
  funext string
  cases string with
  | none => simp [ecmaCreateExceptionFromContext, ecmaCreateException]
  | some string => simp

theorem cmsPpValue_of_not_object {value : EcmaValue} (valid : value.specDefined = true)
    (notSymbol : ∀ address description, value ≠ .symbol address description)
    (notObject : value.isObject = false) :
    cmsPpValue realm fuel value =
      ecmaOpToStringPrimitive realm value >>= printConverted value := by
  rw [cmsPpValue_eq realm fuel valid notSymbol, cmsOpToString_of_not_object realm fuel notObject]
  congr 1
  funext string
  cases string <;> simp [printConverted, notObject]

/-- `cms_pp_value` converts its argument, prints the string, and returns the exception of a
failed conversion, unless the argument is an object. -/
theorem run_cmsPpValue {value : EcmaValue} (valid : value.specDefined = true)
    (alive : (⟨none, held, lent⟩ : Frame).Alive value.references) :
    (cmsPpValue realm fuel value).run ⟨none, held, lent⟩ world =
      (convertArgument realm fuel value >>= printConverted value).run
        ⟨none, held, lent⟩ world := by
  cases value with
  | symbol address description =>
      simp [cmsPpValue, printValue, convertArgument, jerrySymbolDescriptiveString, printConverted]
  | object object =>
      have converted := run_cmsOpToString_object realm fuel world alive
      have returns : ((ecmaBuiltinJsonStringifyNoOpts realm fuel (.object object)).run
          ⟨none, held, lent⟩ world).Ensures (fun _ => True) fun answer _ =>
            StringifyReturns held lent answer.1 answer.2 :=
        ensures_ecmaBuiltinJsonStringifyNoOpts realm world trivial fuel valid alive
      rw [cmsPpValue_eq realm fuel valid nofun, Routine.run_bind, converted, Program.bind_assoc]
      simp only [convertArgument, bind_assoc, Routine.run_bind]
      apply returns.bind_congr
      rintro ⟨result, frame⟩ changed (⟨isError, thrown, rfl⟩ | ⟨isUndefined, rfl⟩ |
        ⟨string, isString, rfl⟩)
      · simp only at isError
        subst isError
        rfl
      · simp only at isUndefined
        subst isUndefined
        simp only [if_true, Routine.run_bind, run_ecmaRaiseStandardError, Program.bind_done]
        rfl
      · simp only at isString
        subst isString
        rfl
  | exception address value abort => cases valid
  | _ =>
      exact congrArg (Routine.run · _ world)
        (cmsPpValue_of_not_object realm fuel valid nofun rfl)

end Native

end Cmsframe
