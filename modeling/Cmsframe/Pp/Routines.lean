import Cmsframe.Json.Serialize
import Cmsframe.Print.Routines

/-!
# `pp`

The conversion and printing functions of `pp.c`. `cms_op_to_string` repeats
`ecma_op_to_string` for everything but objects, and starts a JSON serialisation on
an object.
-/

namespace Cmsframe

open Interaction

namespace Native

variable {Script : Type} (realm : Realm Script)

/-- `cms_op_to_string`; `fuel` bounds the depth of the serialisation. -/
def cmsOpToString (fuel : ℕ) (value : EcmaValue) : Native Script (Option EcmaString) := do
  jerryAssert value.specDefined
  match value with
  | .string string =>
      let _ ← ecmaCopyValue (.string string)
      return some string
  | .integer number =>
      if number < 0 then
        return some (← ecmaNewEcmaStringFromNumber realm (EcmaNumber.ofInt number))
      else
        return some (← ecmaNewEcmaStringFromUint32 number.toNat)
  | .float address number =>
      touch {address}
      return some (← ecmaNewEcmaStringFromNumber realm number)
  | .simple .undefined => return some (.magic (magicText "undefined"))
  | .simple .null => return some (.magic (magicText "null"))
  | .simple .true => return some (.magic (magicText "true"))
  | .simple .false => return some (.magic (magicText "false"))
  | .symbol .. =>
      let _ ← ecmaRaiseStandardError .typeError .convertSymbolToString
      return none
  | .bigintZero => ecmaBigintToString realm 0
  | .bigint address number =>
      touch {address}
      ecmaBigintToString realm number
  | _ =>
      jerryAssert value.isObject
      let result ← ecmaBuiltinJsonStringifyNoOpts realm fuel value
      let result ← (if result = .undefined then
        jerryThrowSz .syntaxError .jsonStringifyError
      else
        pure result)
      let string ← ecmaOpToString realm result
      ecmaFreeValue result
      return string

/-- `cms_value_to_string`. -/
def cmsValueToString (fuel : ℕ) (value : EcmaValue) : Native Script EcmaValue := do
  match value with
  | .exception .. => jerryThrowSz .typeError .valueMsg
  | _ =>
      match ← cmsOpToString realm fuel value with
      | none => ecmaCreateExceptionFromContext
      | some string => return .string string

/-- `CMS_PRINT_BUFFER_SIZE`. -/
def cmsPrintBufferSize : ℕ := 64

/-- `cms_pp_buffer_t`. -/
abbrev CmsPpBuffer := PrintBuffer cmsPrintBufferSize

/-- `buffered_print`. -/
abbrev bufferedPrint : ℕ → CmsPpBuffer → Native Script CmsPpBuffer :=
  storeValue cmsPrintBufferSize

/-- `cms_pp_value`. -/
def cmsPpValue (fuel : ℕ) : EcmaValue → Native Script EcmaValue :=
  printValue realm cmsPrintBufferSize bufferedPrint (cmsValueToString realm fuel)

/-- `cms_handler_pp`. -/
def cmsHandlerPp (fuel : ℕ) : List ScriptValue → Native Script EcmaValue :=
  handlePrint (cmsPpValue realm fuel) 0

end Native

end Cmsframe
