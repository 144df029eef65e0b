import Cmsframe.Engine.Realm
import Cmsframe.Json.Quote

/-!
# The JSON serialiser

`ecma_builtin_json_serialize_property` and the object and array routines it calls,
with the string builder, the indentation and the occurrence stack in a context
that is passed along. Objects are visited through the realm, so any of these
functions can run user code. The recursion is bounded by fuel, which stands for
the native stack.
-/

namespace Cmsframe

open Interaction
open Unicode (CodeUnit)

/-- The code units of CESU-8 bytes, read one by one. -/
def cesu8Units (fuel : ℕ) (bytes : List UInt8) : List CodeUnit :=
  match fuel with
  | 0 => []
  | fuel + 1 =>
      match litReadCodeUnitFromCesu8 bytes with
      | none => []
      | some (unit, size) => UInt16.ofNat unit :: cesu8Units fuel (bytes.drop size)

theorem cesu8Units_cesu8 (units : List CodeUnit) :
    ∀ {fuel : ℕ}, (Unicode.cesu8 units).length ≤ fuel →
      cesu8Units fuel (Unicode.cesu8 units) = units := by
  induction units with
  | nil =>
      intro fuel _
      cases fuel <;> rfl
  | cons unit units ih =>
      intro fuel enough
      have notEmpty : 0 < (Unicode.encode unit.toNat).length :=
        List.length_pos_of_ne_nil (Unicode.encode_ne_nil _)
      rw [Unicode.cesu8_cons] at enough ⊢
      rw [List.length_append] at enough
      obtain ⟨fuel, rfl⟩ : ∃ less, fuel = less + 1 := ⟨fuel - 1, by omega⟩
      have read := litReadCodeUnitFromCesu8_encode unit.toNat_lt (Unicode.cesu8 units)
      rw [cesu8Units, read]
      simp only [List.drop_left', UInt16.ofNat_toNat]
      rw [ih (by omega)]

/-- `ecma_json_stringify_context_t`. -/
structure StringifyContext where
  resultBuilder : List UInt8
  indentBuilder : List UInt8
  occurrenceStack : List EcmaObject
  propertyList : Option (List EcmaString)
  replacerFunction : Option EcmaObject
  gap : EcmaString

namespace StringifyContext

/-- `ecma_stringbuilder_append_raw` and its variants on the result builder. -/
def append (context : StringifyContext) (bytes : List UInt8) : StringifyContext :=
  { context with resultBuilder := context.resultBuilder ++ bytes }

/-- `ecma_stringbuilder_revert` on the result builder. -/
def revert (context : StringifyContext) (size : ℕ) : StringifyContext :=
  { context with resultBuilder := context.resultBuilder.take size }

/-- `has_gap`. -/
def hasGap (context : StringifyContext) : Bool := context.gap.units ≠ []

/-- `ecma_json_has_object_in_stack`. -/
def hasObjectInStack (context : StringifyContext) (object : EcmaObject) : Bool :=
  context.occurrenceStack.any fun item => item.address = object.address

/-- Step 2 to 4 of the object and array routines: push the object and indent. -/
def enter (context : StringifyContext) (object : EcmaObject) : StringifyContext :=
  { context with
    occurrenceStack := object :: context.occurrenceStack
    indentBuilder := context.indentBuilder ++ context.gap.bytes }

/-- The last steps of both routines: pop the object and revert the indentation. -/
def leave (context : StringifyContext) (stepbackSize : ℕ) : StringifyContext :=
  { context with
    occurrenceStack := context.occurrenceStack.tail
    indentBuilder := context.indentBuilder.take stepbackSize }

/-- The builders at the start of a serialisation. -/
def start (context : StringifyContext) : StringifyContext :=
  { context with
    resultBuilder := []
    indentBuilder :=
      if context.hasGap then context.indentBuilder ++ [0x0A] else context.indentBuilder }

/-- With a gap, every property starts on a line of its own. -/
def indent (context : StringifyContext) (size : ℕ) : StringifyContext :=
  if context.hasGap then context.append (context.indentBuilder.take size) else context

/-- The colon between a key and its value. -/
def colon (context : StringifyContext) : StringifyContext :=
  let context := context.append [0x3A]
  if context.hasGap then context.append [0x20] else context

/-- The end of an object: the last comma is taken back. -/
def closeObject (context : StringifyContext) (leftBrace lastProp stepbackSize : ℕ) :
    StringifyContext :=
  let context :=
    if lastProp ≠ leftBrace then (context.revert (lastProp - 1)).indent stepbackSize
    else context
  (context.append [0x7D]).leave stepbackSize

/-- The end of an array: the last comma comes after `lastProp`. -/
def closeArray (context : StringifyContext) (leftSquare lastProp stepbackSize : ℕ) :
    StringifyContext :=
  let context := context.revert lastProp
  let context := if lastProp ≠ leftSquare then context.indent stepbackSize else context
  (context.append [0x5D]).leave stepbackSize

end StringifyContext

/-- `holder_p`: an object of the realm, or the wrapper object with the one property `""`
in which a serialisation starts. -/
inductive Holder where
  | object (object : EcmaObject)
  | wrapper (object : EcmaObject) (value : EcmaValue)

/-- The object behind the pointer. -/
def Holder.target : Holder → EcmaObject
  | .object target => target
  | .wrapper target _ => target

/-- A result of the serialiser: the returned value and the context left behind. -/
abbrev Serialized := EcmaValue × StringifyContext

namespace Native

variable {Script : Type} (realm : Realm Script)

/-- `ecma_op_object_get`. -/
def ecmaOpObjectGet (holder : Holder) (key : EcmaString) : Native Script EcmaValue := do
  touch ({holder.target.address} + key.references)
  match holder with
  | .wrapper _ value =>
      acquire value.references
      pure value
  | .object object => callUserValue (realm.get object key (.object object))

/-- `ecma_op_function_call`. -/
def ecmaOpFunctionCall (function : EcmaObject) (receiver : EcmaValue)
    (arguments : List EcmaValue) : Native Script EcmaValue := do
  touch ({function.address} + receiver.references + (arguments.map EcmaValue.references).sum)
  callUserValue (realm.call function receiver arguments)

/-- `ecma_op_is_callable`. -/
def ecmaOpIsCallable (value : EcmaValue) : Native Script Bool := do
  let world ← readWorld
  match value with
  | .object object =>
      touch {object.address}
      return realm.isCallable world object
  | _ => return false

/-- Create an object and own the one reference to it. -/
def createObject (template : NewObject) : Native Script EcmaObject := fun frame world =>
  let created := realm.create template world
  .done (⟨created.1, none⟩, { frame with held := frame.held + {created.1} }) created.2

/-- The call of `ecma_op_to_object` on an object or a BigInt, which cannot fail. -/
def ecmaOpToObject (value : EcmaValue) : Native Script EcmaObject := do
  match value with
  | .object object =>
      let _ ← ecmaCopyValue value
      return object
  | _ =>
      touch value.references
      createObject realm (.bigintObject value)

/-- `ecma_new_ecma_string_from_length`. -/
def ecmaNewEcmaStringFromLength (number : ℕ) : Native Script EcmaString :=
  if number < 2 ^ 32 then
    ecmaNewEcmaStringFromUint32 number
  else
    ecmaNewEcmaStringFromNumber realm (EcmaNumber.ofInt number)

/-- `ecma_builtin_json_quote` on the result builder. -/
def quoteString (context : StringifyContext) (string : EcmaString) :
    Native Script StringifyContext := do
  touch string.references
  match ecmaBuiltinJsonQuote context.resultBuilder string with
  | some bytes => return { context with resultBuilder := bytes }
  | none => Routine.fail .assertion

/-- Step 3.b and 3.c of `ecma_builtin_json_serialize_property`: let `toJSON` replace an
object or a BigInt. -/
def callToJson (key : EcmaString) (value : EcmaValue) : Native Script EcmaValue := do
  let object ← ecmaOpToObject realm value
  touch value.references
  let toJson ← callUserValue (realm.get object (.magic (magicText "toJSON")) value)
  ecmaDerefObject object
  if toJson = .error then
    ecmaFreeValue value
    return .error
  else if ← ecmaOpIsCallable realm toJson then
    match toJson with
    | .object function =>
        let result ← ecmaOpFunctionCall realm function value [.string key]
        ecmaFreeValue value
        if result = .error then
          ecmaDerefObject function
          return .error
        else
          ecmaFreeValue toJson
          return result
    | _ => Routine.fail .assertion
  else
    ecmaFreeValue toJson
    return value

/-- Step 3. -/
def applyToJson (key : EcmaString) (value : EcmaValue) : Native Script EcmaValue :=
  match value with
  | .object _ | .bigintZero | .bigint .. => callToJson realm key value
  | _ => pure value

/-- Step 4: let the replacer function replace the value. -/
def callReplacer (replacer : EcmaObject) (holder : Holder) (key : EcmaString)
    (value : EcmaValue) : Native Script EcmaValue := do
  let result ← ecmaOpFunctionCall realm replacer (.object holder.target) [.string key, value]
  ecmaFreeValue value
  return result

/-- Step 4, when there is a replacer function. -/
def applyReplacer (replacer : Option EcmaObject) (holder : Holder) (key : EcmaString)
    (value : EcmaValue) : Native Script EcmaValue :=
  match replacer with
  | some replacer => callReplacer realm replacer holder key value
  | none => pure value

/-- Step 5: unwrap the wrapper objects of primitive values. -/
def unwrapPrimitive (value : EcmaValue) : Native Script EcmaValue := do
  match value with
  | .object object =>
      touch {object.address}
      let world ← readWorld
      match realm.classOf world object with
      | .number =>
          let number ← callUser (realm.toNumber object)
          ecmaDerefObject object
          match number with
          | none => return .error
          | some number => ecmaMakeNumberValue number
      | .string =>
          let string ← ecmaOpToString realm value
          ecmaDerefObject object
          match string with
          | none => return .error
          | some string => return .string string
      | .boolean unwrapped =>
          ecmaDerefObject object
          return .simple (if unwrapped then .true else .false)
      | .bigint unwrapped =>
          acquire unwrapped.value.references
          ecmaDerefObject object
          return unwrapped.value
      | .other => return value
  | _ => return value

/-- Step 10.a: the text of a finite number. -/
def serializeNumber (context : StringifyContext) (value : EcmaValue) (number : EcmaNumber) :
    Native Script Serialized := do
  if number.isFinite then
    match ← ecmaOpToString realm value with
    | none => Routine.fail .assertion
    | some string =>
        let context := context.append string.bytes
        ecmaDerefEcmaString string
        ecmaFreeValue value
        return (.empty, context)
  else
    ecmaFreeValue value
    return (.empty, context.append (asciiBytes "null"))

/-- The serialiser of one property, on which the object and array routines are built. -/
abbrev Serializer (Script : Type) :=
  StringifyContext → Holder → EcmaString → Native Script Serialized

variable (serialize : Serializer Script)

/-- The loop of `ecma_builtin_json_serialize_object` over the keys. A property that has
no JSON form is taken back by reverting to `lastProp`, the size of the text up to
the last property that has one. -/
def serializeKeys (object : EcmaObject) (separatorSize : ℕ) :
    List EcmaString → ℕ → StringifyContext → Native Script (EcmaValue × ℕ × StringifyContext)
  | [], lastProp, context => return (.empty, lastProp, context)
  | key :: keys, lastProp, context => do
      let context ← quoteString (context.indent separatorSize) key
      let (result, context) ← serialize context.colon (.object object) key
      if result = .error then
        return (.error, lastProp, context)
      else if result = .undefined then
        serializeKeys object separatorSize keys lastProp (context.revert lastProp)
      else
        jerryAssert (result = .empty)
        let context := context.append [0x2C]
        serializeKeys object separatorSize keys context.resultBuilder.length context

/-- `ecma_builtin_json_serialize_object` after its keys have been collected. -/
def serializeObjectKeys (stepbackSize : ℕ) (context : StringifyContext) (object : EcmaObject)
    (keys : List EcmaString) : Native Script Serialized := do
  let separatorSize := context.indentBuilder.length
  let context := context.append [0x7B]
  let leftBrace := context.resultBuilder.length
  let (result, lastProp, context) ←
    serializeKeys serialize object separatorSize keys leftBrace context
  if result = .error then
    return (.error, context)
  else
    return (.empty, context.closeObject leftBrace lastProp stepbackSize)

/-- `ecma_builtin_json_serialize_object`. -/
def serializeObject (context : StringifyContext) (object : EcmaObject) :
    Native Script Serialized := do
  if context.hasObjectInStack object then
    return (← ecmaRaiseStandardError .typeError .theStructureIsCyclical, context)
  else
    let stepbackSize := context.indentBuilder.length
    let context := context.enter object
    match context.propertyList with
    | some keys => serializeObjectKeys serialize stepbackSize context object keys
    | none =>
        touch {object.address}
        match ← callUser (realm.enumerablePropertyNames object) with
        | none => return (.error, context)
        | some keys =>
            acquire (keys.map EcmaString.references).sum
            let result ← serializeObjectKeys serialize stepbackSize context object keys
            release (keys.map EcmaString.references).sum
            return result

/-- The loop of `ecma_builtin_json_serialize_array`. Here the comma comes after
`lastProp`, and the array goes on with `null` where an element has no JSON form. -/
def serializeElements (object : EcmaObject) (separatorSize : ℕ) :
    ℕ → ℕ → ℕ → StringifyContext → Native Script (EcmaValue × ℕ × StringifyContext)
  | 0, _, lastProp, context => return (.empty, lastProp, context)
  | remaining + 1, index, _, context => do
      let key ← ecmaNewEcmaStringFromLength realm index
      let (result, context) ←
        serialize (context.indent separatorSize) (.object object) key
      ecmaDerefEcmaString key
      if result = .error then
        return (.error, 0, context)
      else
        let context ← (do
          if result = .undefined then
            return context.append (asciiBytes "null")
          else
            jerryAssert (result = .empty)
            return context : Native Script StringifyContext)
        serializeElements object separatorSize remaining (index + 1)
          context.resultBuilder.length (context.append [0x2C])

/-- `ecma_builtin_json_serialize_array`. -/
def serializeArray (context : StringifyContext) (object : EcmaObject) :
    Native Script Serialized := do
  let world ← readWorld
  touch {object.address}
  jerryAssert (realm.isArray world object = some true)
  if context.hasObjectInStack object then
    return (← ecmaRaiseStandardError .typeError .theStructureIsCyclical, context)
  else
    let stepbackSize := context.indentBuilder.length
    let context := context.enter object
    let separatorSize := context.indentBuilder.length
    match ← callUser (realm.getLength object) with
    | none => return (.error, context)
    | some arrayLength =>
        let context := context.append [0x5B]
        let leftSquare := context.resultBuilder.length
        let (result, lastProp, context) ←
          serializeElements realm serialize object separatorSize arrayLength 0 leftSquare context
        if result = .error then
          return (.error, context)
        else
          return (.empty, context.closeArray leftSquare lastProp stepbackSize)

/-- Steps 6 to 12 of `ecma_builtin_json_serialize_property`. -/
def serializeValue (context : StringifyContext) (value : EcmaValue) :
    Native Script Serialized := do
  match value with
  | .simple .null => return (.empty, context.append (asciiBytes "null"))
  | .simple .true => return (.empty, context.append (asciiBytes "true"))
  | .simple .false => return (.empty, context.append (asciiBytes "false"))
  | .string string =>
      let context ← quoteString context string
      ecmaDerefEcmaString string
      return (.empty, context)
  | .integer number => serializeNumber realm context value (EcmaNumber.ofInt number)
  | .float address number =>
      touch {address}
      serializeNumber realm context value number
  | .bigintZero | .bigint .. =>
      ecmaFreeValue value
      return (← ecmaRaiseStandardError .typeError .bigintSerialized, context)
  | .object object =>
      if ← ecmaOpIsCallable realm value then
        ecmaFreeValue value
        return (.undefined, context)
      else
        let world ← readWorld
        match realm.isArray world object with
        | none =>
            let raised ←
              ecmaRaiseStandardError .typeError .proxyHandlerIsNullForIsArrayOperation
            ecmaFreeValue value
            return (raised, context)
        | some true =>
            let result ← serializeArray realm serialize context object
            ecmaDerefObject object
            return result
        | some false =>
            let result ← serializeObject realm serialize context object
            ecmaDerefObject object
            return result
  | _ =>
      ecmaFreeValue value
      return (.undefined, context)

/-- The steps of `ecma_builtin_json_serialize_property` around the value: get it, and let
`toJSON`, the replacer function and the wrapper classes replace it. -/
def serializePropertyWith (context : StringifyContext) (holder : Holder) (key : EcmaString) :
    Native Script Serialized := do
  let value ← ecmaOpObjectGet realm holder key
  if value = .error then
    return (.error, context)
  else
    let value ← applyToJson realm key value
    if value = .error then
      return (.error, context)
    else
      let value ← applyReplacer realm context.replacerFunction holder key value
      if value = .error then
        return (.error, context)
      else
        let value ← unwrapPrimitive realm value
        if value = .error then
          return (.error, context)
        else
          serializeValue realm serialize context value

/-- `ecma_builtin_json_serialize_property`. -/
def ecmaBuiltinJsonSerializeProperty : ℕ → Serializer Script
  | 0 => fun _ _ _ => Routine.fail .outOfFuel
  | fuel + 1 => serializePropertyWith realm (ecmaBuiltinJsonSerializeProperty fuel)

/-- `ecma_builtin_json_str_helper`. -/
def ecmaBuiltinJsonStrHelper (fuel : ℕ) (context : StringifyContext) (value : EcmaValue) :
    Native Script EcmaValue := do
  touch value.references
  let wrapper ← createObject realm (.holder value)
  let (result, context) ← ecmaBuiltinJsonSerializeProperty realm fuel context.start
    (.wrapper wrapper value) (.magic [])
  ecmaDerefObject wrapper
  if result = .error ∨ result = .undefined then
    return result
  else
    let string ← ecmaNewEcmaString realm
      (cesu8Units context.resultBuilder.length context.resultBuilder)
    return .string string

/-- `ecma_builtin_json_stringify_no_opts`. -/
def ecmaBuiltinJsonStringifyNoOpts (fuel : ℕ) (value : EcmaValue) :
    Native Script EcmaValue := do
  let context : StringifyContext := ⟨[], [], [], none, none, .magic []⟩
  let result ← ecmaBuiltinJsonStrHelper realm fuel context value
  ecmaDerefEcmaString context.gap
  return result

end Native

end Cmsframe
