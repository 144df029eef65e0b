import Mathlib.Data.Multiset.AddSub
import Mathlib.Data.Rat.Floor
import Cmsframe.Library.Decimal
import Cmsframe.Library.Unicode

/-!
# Engine values

`EcmaValue` spells out the tagged word `ecma_value_t`: each type tag of the
encoding is a constructor, with what the word points to kept next to the
pointer. All engine types share the one C integer type, so nothing but the tag
separates a script value from the internal markers (`ECMA_VALUE_ERROR` among
them) and from exception references; `EcmaValue.specDefined` is the check the
engine makes where it matters.

Heap cells are identified by their address. A cell's content that never changes
(string texts, numbers, the class of an error object) is part of the value; what
scripts can change is not, and lives in the world of `Cmsframe.Engine.Realm`.
-/

namespace Cmsframe

open Unicode (CodeUnit asciiUnits)

/-- A compressed pointer to a heap cell. -/
abbrev Pointer := ℕ

/-- The code units of a text constant. -/
def magicText (text : String) : List CodeUnit := Unicode.utf16 text.toList

/-- The bytes of an ASCII text constant. -/
def asciiBytes (text : String) : List UInt8 := text.toList.map fun character =>
  UInt8.ofNat character.toNat

/-- `ecma_number_t`: a double is one of the special values or the rational number it
denotes. -/
inductive EcmaNumber where
  | nan
  | infinity (negative : Bool)
  | negativeZero
  | finite (value : ℚ)
  deriving DecidableEq

/-- `ecma_string_t`: magic strings and small integers live in the pointer itself,
all other strings in a counted heap cell. -/
inductive EcmaString where
  | magic (text : List CodeUnit)
  | uint (number : ℕ)
  | heap (address : Pointer) (text : List CodeUnit)
  deriving DecidableEq

/-- `jerry_error_t`. -/
inductive ErrorType where
  | common
  | evalError
  | rangeError
  | referenceError
  | syntaxError
  | typeError
  | uriError
  | aggregateError
  deriving DecidableEq

/-- The `ecma_error_msg_t` ids used by the modelled functions. The texts are not
compiled in: `ecma_get_error_msg` returns `NULL` without `JERRY_ERROR_MESSAGES`. -/
inductive ErrorMessage where
  | valueMsg
  | wrongArgsMsg
  | convertSymbolToString
  | allocateBigintString
  | theStructureIsCyclical
  | bigintSerialized
  | proxyHandlerIsNullForIsArrayOperation
  | jsonStringifyError
  deriving DecidableEq

/-- What `ecma_new_standard_error` fixes when native code creates an error object. -/
structure NativeError where
  type : ErrorType
  message : ErrorMessage
  deriving DecidableEq

/-- `ecma_object_t`: the cell, and for error objects created by native code the
kind of error. -/
structure EcmaObject where
  address : Pointer
  nativeError : Option NativeError
  deriving DecidableEq

/-- The `ECMA_TYPE_DIRECT` constants `ECMA_VALUE_*`. -/
inductive SimpleValue where
  | empty
  | error
  | false
  | true
  | undefined
  | null
  | uninitialized
  | notFound
  | arrayHole
  | registerRef
  | releaseLexEnv
  | spreadElement
  | argumentNoTrack
  | syncIterator
  | asyncIterator
  | globalThis
  deriving DecidableEq

/-- `ecma_value_t`. -/
inductive EcmaValue where
  | simple (value : SimpleValue)
  | integer (value : ℤ)
  | float (address : Pointer) (value : EcmaNumber)
  | string (value : EcmaString)
  | symbol (address : Pointer) (description : Option (List CodeUnit))
  | bigintZero
  | bigint (address : Pointer) (value : ℤ)
  | object (value : EcmaObject)
  | exception (address : Pointer) (value : EcmaValue) (abort : Bool)
  deriving DecidableEq

namespace EcmaNumber

/-- `ecma_number_is_nan` or `ecma_number_is_infinity` fails. -/
def isFinite : EcmaNumber → Bool
  | .nan | .infinity _ => false
  | .negativeZero | .finite _ => true

/-- `ecma_number_to_uint32`: truncate and reduce modulo 2^32. -/
def toUint32 : EcmaNumber → ℕ
  | .nan | .infinity _ | .negativeZero => 0
  | .finite value =>
      let magnitude := |value|.floor.toNat % 2 ^ 32
      if value < 0 then (2 ^ 32 - magnitude) % 2 ^ 32 else magnitude

/-- The conversion of a C integer to `ecma_number_t`. -/
def ofInt (value : ℤ) : EcmaNumber := .finite value

/-- The C comparison `==` of a number with a converted integer: the two zeros are
equal. -/
def eqInt (number : EcmaNumber) (value : ℤ) : Bool :=
  match number with
  | .nan | .infinity _ => false
  | .negativeZero => value == 0
  | .finite rational => rational == (value : ℚ)

end EcmaNumber

namespace EcmaString

/-- The code units of a string. -/
def units : EcmaString → List CodeUnit
  | .magic text => text
  | .uint number => asciiUnits (Decimal.decimal number)
  | .heap _ text => text

/-- The bytes `ECMA_STRING_TO_UTF8_STRING` gives access to. -/
def bytes (string : EcmaString) : List UInt8 := Unicode.cesu8 string.units

/-- The counted cell of the string, if it has one. -/
def references : EcmaString → Multiset Pointer
  | .magic _ | .uint _ => 0
  | .heap address _ => {address}

end EcmaString

namespace EcmaValue

/-- `ecma_check_value_type_is_spec_defined`: the value is one a script can hold. -/
def specDefined : EcmaValue → Bool
  | .simple .undefined | .simple .null | .simple .true | .simple .false => true
  | .simple _ | .exception .. => false
  | .integer _ | .float .. | .string _ | .symbol .. | .bigintZero | .bigint .. | .object _ => true

/-- The counted cell a value word points to, if any. -/
def references : EcmaValue → Multiset Pointer
  | .simple _ | .integer _ | .bigintZero => 0
  | .float address _ | .symbol address _ | .bigint address _ | .exception address _ _ => {address}
  | .string value => value.references
  | .object value => {value.address}

@[simp]
theorem references_simple (value : SimpleValue) : (simple value).references = 0 := rfl

@[simp]
theorem references_integer (value : ℤ) : (integer value).references = 0 := rfl

@[simp]
theorem references_float (address : Pointer) (value : EcmaNumber) :
    (float address value).references = {address} := rfl

@[simp]
theorem references_string (value : EcmaString) :
    (string value).references = value.references := rfl

@[simp]
theorem references_bigint (address : Pointer) (value : ℤ) :
    (bigint address value).references = {address} := rfl

@[simp]
theorem references_object (value : EcmaObject) :
    (object value).references = {value.address} := rfl

@[simp]
theorem references_exception (address : Pointer) (value : EcmaValue) (abort : Bool) :
    (exception address value abort).references = {address} := rfl

/-- `ecma_is_value_object`. -/
def isObject : EcmaValue → Bool
  | .object _ => true
  | _ => false

theorem exists_object {value : EcmaValue} (isObject : value.isObject = true) :
    ∃ object, value = .object object := by
  cases value with
  | object object => exact ⟨object, rfl⟩
  | _ => cases isObject

/-- `ECMA_VALUE_UNDEFINED`. -/
abbrev undefined : EcmaValue := .simple .undefined

/-- `ECMA_VALUE_ERROR`, the marker for "an exception is pending". -/
abbrev error : EcmaValue := .simple .error

/-- `ECMA_VALUE_EMPTY`. -/
abbrev empty : EcmaValue := .simple .empty

end EcmaValue

/-- A value that scripts can hold. -/
structure ScriptValue where
  value : EcmaValue
  specDefined : value.specDefined = true
  deriving DecidableEq

namespace ScriptValue

abbrev undefined : ScriptValue := ⟨.undefined, rfl⟩

abbrev ofObject (object : EcmaObject) : ScriptValue := ⟨.object object, rfl⟩

theorem undefined_not_object : ¬undefined.value.isObject := Bool.false_ne_true

end ScriptValue

/-- A thrown value, and whether it is an abort, which scripts cannot catch. -/
structure Thrown where
  thrown : ScriptValue
  abort : Bool
  deriving DecidableEq

end Cmsframe
