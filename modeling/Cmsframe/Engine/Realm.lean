import Cmsframe.Engine.Context

/-!
# The realm: objects, numbers and strings as native code sees them

Native code reaches script objects through a handful of object operations, any of
which can run user code when the object has accessors or is a proxy. A `Realm`
gives these operations for one arbitrary world of script objects. The engine's
shortest-digits and string-to-number algorithms, the magic string table and the
size of the heap are parameters as well; the formatting around them is the code's
own.
-/

namespace Cmsframe

open Interaction
open Unicode (CodeUnit asciiUnits)

/-- The two conversions between doubles and decimal digits. -/
structure NumberConversion where
  /-- `ecma_number_to_decimal` on a positive number: the digits, and the decimal
  exponent of the point in front of them. -/
  toDecimal : ℚ → List UInt8 × ℤ
  /-- `ecma_utf8_string_to_number`. -/
  fromDecimal : List UInt8 → EcmaNumber

/-- What the serialiser asks of an object of base type class: the primitive types have
wrapper objects of their own. -/
inductive ObjectClass where
  | number
  | string
  | boolean (value : Bool)
  | bigint (value : ScriptValue)
  | other
  deriving DecidableEq

/-- Objects that native code creates in the course of a serialisation. -/
inductive NewObject where
  | holder (value : EcmaValue)
  | bigintObject (value : EcmaValue)

/-- A world of script objects. -/
structure Realm (Script : Type) where
  numbers : NumberConversion
  isMagicString : List CodeUnit → Bool
  /-- Whether the heap has room for the decimal digits of a BigInt. -/
  bigintFits : ℤ → Bool
  /-- `ecma_op_object_get_with_receiver`. -/
  get : EcmaObject → EcmaString → EcmaValue → UserCode Script ScriptValue
  /-- `ecma_op_object_get_enumerable_property_names` with `ECMA_ENUMERABLE_PROPERTY_KEYS`. -/
  enumerablePropertyNames : EcmaObject → UserCode Script (List EcmaString)
  /-- `ecma_op_object_get_length`. -/
  getLength : EcmaObject → UserCode Script ℕ
  /-- `ecma_op_function_call`. -/
  call : EcmaObject → EcmaValue → List EcmaValue → UserCode Script ScriptValue
  /-- `ecma_op_object_default_value` with `ECMA_PREFERRED_TYPE_STRING`: never an object. -/
  defaultValue : EcmaObject → UserCode Script { result : ScriptValue // ¬result.value.isObject }
  /-- `ecma_op_to_number` on an object. -/
  toNumber : EcmaObject → UserCode Script EcmaNumber
  /-- `ecma_op_object_is_callable`. -/
  isCallable : World Script → EcmaObject → Bool
  /-- `ecma_is_value_array` on an object; `none` for a revoked proxy. -/
  isArray : World Script → EcmaObject → Option Bool
  /-- The class of the object. -/
  classOf : World Script → EcmaObject → ObjectClass
  /-- `ecma_op_create_object_object_noarg` with one property defined, and
  `ecma_op_to_object` on a BigInt. -/
  create : NewObject → World Script → Pointer × World Script

/-- `ecma_number_to_utf8_string`. -/
def ecmaNumberToUtf8String (numbers : NumberConversion) (number : EcmaNumber) : List UInt8 :=
  match number with
  | .nan => asciiBytes "NaN"
  | .negativeZero => [0x30]
  | .infinity negative => (if negative then [0x2D] else []) ++ asciiBytes "Infinity"
  | .finite value =>
      if value = 0 then
        [0x30]
      else
        (if value < 0 then [0x2D] else []) ++
          let magnitude := |value|
          if EcmaNumber.eqInt (.finite magnitude) (EcmaNumber.toUint32 (.finite magnitude)) then
            Decimal.decimal (EcmaNumber.toUint32 (.finite magnitude))
          else
            let digits := (numbers.toDecimal magnitude).1
            let n := (numbers.toDecimal magnitude).2
            let k : ℤ := digits.length
            if k ≤ n ∧ n ≤ 21 then
              digits ++ List.replicate (n - k).toNat 0x30
            else if 0 < n ∧ n ≤ 21 then
              digits.take n.toNat ++ [0x2E] ++ digits.drop n.toNat
            else if -6 < n ∧ n ≤ 0 then
              [0x30, 0x2E] ++ List.replicate (-n).toNat 0x30 ++ digits
            else
              (if k = 1 then digits else digits.take 1 ++ [0x2E] ++ digits.drop 1) ++ [0x65] ++
                (if 1 ≤ n then [0x2B] else [0x2D]) ++
                Decimal.decimal (if 1 ≤ n then n - 1 else -(n - 1)).toNat

/-- The largest number `ECMA_CREATE_DIRECT_STRING` can hold. -/
def directStringMax : ℕ := 0xFFFF

/-- `ECMA_IS_INTEGER_NUMBER`. -/
def isIntegerNumber (value : ℤ) : Bool := -0x8000000 ≤ value && value ≤ 0x7FFFFFF

/-- `ecma_string_to_array_index`: the canonical decimal forms of the 32-bit numbers. The
last of ten digits is checked for overflow. -/
def ecmaStringToArrayIndex (bytes : List UInt8) : Option ℕ :=
  match bytes with
  | [] => none
  | first :: _ =>
      if first = 0x30 then
        if bytes.length = 1 then some 0 else none
      else if 10 < bytes.length then
        none
      else if bytes.all fun byte => Decimal.IsDigit byte then
        if bytes.length < 10 then
          some (Decimal.value bytes)
        else
          let index := Decimal.value bytes.dropLast
          let last := (bytes.getLastD 0).toNat
          if (2 ^ 32 - 1) / 10 < index ∨ (index = (2 ^ 32 - 1) / 10 ∧ 0x35 < last) then
            none
          else
            some (index * 10 + (last - 0x30))
      else
        none

/-- An array index is written the way numbers are. -/
theorem decimal_of_ecmaStringToArrayIndex {bytes : List UInt8} {index : ℕ}
    (isIndex : ecmaStringToArrayIndex bytes = some index) :
    Decimal.decimal index = bytes ∧ index < 2 ^ 32 := by
  rcases bytes with _ | ⟨first, rest⟩
  · cases isIndex
  · simp only [ecmaStringToArrayIndex, List.all_eq_true, decide_eq_true_eq] at isIndex
    split_ifs at isIndex with isZero single long digits short overflow
    · cases isIndex
      have empty : rest = [] := by simpa using single
      subst isZero empty
      exact ⟨rfl, by norm_num⟩
    · cases isIndex
      refine ⟨Decimal.decimal_value (List.cons_ne_nil first rest) digits isZero, ?_⟩
      have bound := Decimal.value_lt digits
      have power : 10 ^ (first :: rest).length ≤ 10 ^ 9 :=
        Nat.pow_le_pow_right (by norm_num) (by omega)
      omega
    · cases isIndex
      have split := List.dropLast_append_getLast (List.cons_ne_nil first rest)
      have last : (first :: rest).getLastD 0 = (first :: rest).getLast (by simp) := by
        rw [List.getLastD_eq_getLast?, List.getLast?_eq_some_getLast (by simp), Option.getD_some]
      have total := Decimal.value_append_singleton (first :: rest).dropLast
        ((first :: rest).getLast (by simp))
      rw [split] at total
      have lastDigit := digits _ (List.getLast_mem (List.cons_ne_nil first rest))
      unfold Decimal.IsDigit at lastDigit
      rw [last] at overflow ⊢
      rw [← total]
      refine ⟨Decimal.decimal_value (List.cons_ne_nil first rest) digits isZero, ?_⟩
      push Not at overflow
      omega

namespace Native

variable {Script : Type} (realm : Realm Script)

/-- `ecma_new_ecma_string_from_uint32`, and `ecma_new_ecma_string_from_length` where the
length is below 2^32. -/
def ecmaNewEcmaStringFromUint32 (number : ℕ) : Native Script EcmaString := do
  if number ≤ directStringMax then
    pure (.uint number)
  else
    let address ← allocate
    pure (.heap address (asciiUnits (Decimal.decimal number)))

/-- `ecma_find_special_string`, and a new counted string otherwise: the common part of
`ecma_new_ecma_string_from_utf8`, `ecma_new_ecma_string_from_ascii` and
`ecma_stringbuilder_finalize`. -/
def ecmaNewEcmaString (units : List CodeUnit) : Native Script EcmaString := do
  if realm.isMagicString units then
    pure (.magic units)
  else
    match ecmaStringToArrayIndex (Unicode.cesu8 units) with
    | some index => ecmaNewEcmaStringFromUint32 index
    | none =>
        let address ← allocate
        pure (.heap address units)

/-- `ecma_new_ecma_string_from_number`. -/
def ecmaNewEcmaStringFromNumber (number : EcmaNumber) : Native Script EcmaString := do
  if number.eqInt number.toUint32 then
    ecmaNewEcmaStringFromUint32 number.toUint32
  else
    match number with
    | .nan => pure (.magic (magicText "NaN"))
    | .infinity true => pure (.magic (magicText "-Infinity"))
    | .infinity false => pure (.magic (magicText "Infinity"))
    | _ =>
        let address ← allocate
        pure (.heap address (asciiUnits (ecmaNumberToUtf8String realm.numbers number)))

/-- `ecma_make_number_value`: small integers are encoded in the value, all other numbers,
negative zero included, get a cell. -/
def ecmaMakeNumberValue (number : EcmaNumber) : Native Script EcmaValue := do
  match number with
  | .finite value =>
      if value.den = 1 ∧ isIntegerNumber value.num then
        pure (.integer value.num)
      else
        let address ← allocate
        pure (.float address number)
  | _ =>
      let address ← allocate
      pure (.float address number)

/-- `ecma_bigint_to_string` in base 10. -/
def ecmaBigintToString (value : ℤ) : Native Script (Option EcmaString) := do
  if value = 0 then
    return some (.uint 0)
  else if realm.bigintFits value then
    let digits := Decimal.decimal value.natAbs
    let string ← ecmaNewEcmaString realm
      (asciiUnits (if value < 0 then 0x2D :: digits else digits))
    return some string
  else
    let _ ← ecmaRaiseStandardError .rangeError .allocateBigintString
    return none

/-- `ecma_op_to_string` on everything but objects; `none` is the null pointer. -/
def ecmaOpToStringPrimitive (value : EcmaValue) : Native Script (Option EcmaString) := do
  jerryAssert value.specDefined
  match value with
  | .string string =>
      let _ ← ecmaCopyValue (.string string)
      return some string
  | .integer number =>
      if number < 0 then
        return some (← ecmaNewEcmaStringFromNumber realm (EcmaNumber.ofInt number))
      else
        return some (← ecmaNewEcmaStringFromUint32 number.toNat)
  | .float address number =>
      touch {address}
      return some (← ecmaNewEcmaStringFromNumber realm number)
  | .simple .undefined => return some (.magic (magicText "undefined"))
  | .simple .null => return some (.magic (magicText "null"))
  | .simple .true => return some (.magic (magicText "true"))
  | .simple .false => return some (.magic (magicText "false"))
  | .symbol .. =>
      let _ ← ecmaRaiseStandardError .typeError .convertSymbolToString
      return none
  | .bigintZero => ecmaBigintToString realm 0
  | .bigint address number =>
      touch {address}
      ecmaBigintToString realm number
  | _ => Routine.fail .assertion

/-- `ecma_op_to_string`: an object is first converted to a primitive value. -/
def ecmaOpToString (value : EcmaValue) : Native Script (Option EcmaString) := do
  match value with
  | .object object =>
      touch {object.address}
      match ← callUser (realm.defaultValue object) with
      | none => return none
      | some primitive =>
          acquire primitive.1.value.references
          let string ← ecmaOpToStringPrimitive realm primitive.1.value
          ecmaFreeValue primitive.1.value
          return string
  | _ => ecmaOpToStringPrimitive realm value

/-- `ecma_get_symbol_descriptive_string`. -/
def ecmaGetSymbolDescriptiveString (address : Pointer)
    (description : Option (List CodeUnit)) : Native Script EcmaString := do
  touch {address}
  ecmaNewEcmaString realm
    (magicText "Symbol(" ++ description.getD [] ++ magicText ")")

end Native

end Cmsframe
