import Cmsframe.Engine.Conventions
import Cmsframe.Json.Serialize

/-!
# `JSON.stringify`

The builtin that scripts call: it turns the replacer and the space argument into the
options of a serialisation. With both of them undefined it starts the same serialisation
as the function without options that native code calls.
-/

namespace Cmsframe

open Interaction
open Unicode (CodeUnit)

/-- `ecma_op_to_integer` on a number. -/
def ecmaOpToInteger (number : EcmaNumber) : EcmaNumber :=
  match number with
  | .nan => .finite 0
  | .finite value => .finite (if value < 0 then -(|value|.floor : ℚ) else |value|.floor)
  | _ => number

/-- Step 6.a: the number of spaces, at most ten. -/
def numOfSpaces (number : EcmaNumber) : ℕ :=
  match ecmaOpToInteger number with
  | .infinity false => 10
  | .finite value => (min 10 value.floor).toNat
  | _ => 0

/-- The references of a property list. -/
def propertyListReferences (propertyList : Option (List EcmaString)) : Multiset Pointer :=
  ((propertyList.getD []).map EcmaString.references).sum

namespace Native

variable {Script : Type} (realm : Realm Script)

/-- `ecma_op_object_get_by_index`. -/
def ecmaOpObjectGetByIndex (object : EcmaObject) (index : ℕ) : Native Script EcmaValue :=
  if index ≤ directStringMax then
    ecmaOpObjectGet realm (.object object) (.uint index)
  else do
    let key ← ecmaNewEcmaStringFromLength realm index
    let value ← ecmaOpObjectGet realm (.object object) key
    ecmaDerefEcmaString key
    return value

/-- Steps 4.b.iii.5.c to 4.b.iii.5.f: the key that an item of the replacer list stands for.
The outer `none` is a pending exception. -/
def propertyListItem (value : EcmaValue) : Native Script (Option (Option EcmaString)) := do
  match value with
  | .string string =>
      let _ ← ecmaCopyValue value
      return some (some string)
  | .integer _ | .float .. =>
      match ← ecmaOpToString realm value with
      | none => Routine.fail .assertion
      | some string => return some (some string)
  | .object object =>
      touch {object.address}
      let world ← readWorld
      match realm.classOf world object with
      | .number | .string =>
          match ← ecmaOpToString realm value with
          | none => return none
          | some string => return some (some string)
      | _ => return some none
  | _ => return some none

/-- The loop over the replacer list. The index has 32 bits and never reaches the length of
a longer list, so the loop is bounded by `turns`. -/
def collectPropertyList (object : EcmaObject) (arrayLength : ℕ) :
    ℕ → ℕ → List EcmaString → Native Script (Option (List EcmaString))
  | turns, index, keys =>
      if index < arrayLength then
        match turns with
        | 0 => Routine.fail .outOfFuel
        | turns + 1 => do
            let value ← ecmaOpObjectGetByIndex realm object index
            if value = .error then
              release (propertyListReferences (some keys))
              return none
            else
              match ← propertyListItem realm value with
              | none =>
                  release (propertyListReferences (some keys))
                  ecmaFreeValue value
                  return none
              | some none =>
                  ecmaFreeValue value
                  collectPropertyList object arrayLength turns ((index + 1) % 2 ^ 32) keys
              | some (some string) =>
                  ecmaFreeValue value
                  if keys.any fun key => key.units = string.units then
                    ecmaDerefEcmaString string
                    collectPropertyList object arrayLength turns ((index + 1) % 2 ^ 32) keys
                  else
                    collectPropertyList object arrayLength turns ((index + 1) % 2 ^ 32)
                      (keys ++ [string])
      else
        return some keys

/-- Step 4: the replacer function or the property list. -/
def replacerOptions (turns : ℕ) (replacer : EcmaValue) :
    Native Script (Option (Option EcmaObject × Option (List EcmaString))) := do
  match replacer with
  | .object object =>
      if ← ecmaOpIsCallable realm replacer then
        return some (some object, none)
      else
        let world ← readWorld
        match realm.isArray world object with
        | none =>
            let _ ← ecmaRaiseStandardError .typeError .proxyHandlerIsNullForIsArrayOperation
            return none
        | some true =>
            match ← callUser (realm.getLength object) with
            | none => return none
            | some arrayLength =>
                match ← collectPropertyList realm object arrayLength turns 0 [] with
                | none => return none
                | some keys => return some (none, some keys)
        | some false => return some (none, none)
  | _ => return some (none, none)

/-- Step 5: unwrap the space argument. -/
def unwrapSpace (space : EcmaValue) : Native Script EcmaValue := do
  match space with
  | .object object =>
      touch {object.address}
      let world ← readWorld
      match realm.classOf world object with
      | .number =>
          match ← callUser (realm.toNumber object) with
          | none => return .error
          | some number => ecmaMakeNumberValue number
      | .string =>
          match ← ecmaOpToString realm space with
          | none => return .error
          | some string => return .string string
      | _ => ecmaCopyValue space
  | _ => ecmaCopyValue space

/-- Step 6 for a number. -/
def spaces (number : EcmaNumber) : Native Script EcmaString :=
  if numOfSpaces number < 1 then
    pure (.magic [])
  else
    ecmaNewEcmaString realm (List.replicate (numOfSpaces number) 0x20)

/-- Steps 6 to 8: the gap. -/
def gapString (space : EcmaValue) : Native Script EcmaString := do
  match space with
  | .integer number => spaces realm (EcmaNumber.ofInt number)
  | .float address number =>
      touch {address}
      spaces realm number
  | .string string =>
      if string.units.length < 10 then
        let _ ← ecmaCopyValue space
        return string
      else
        touch string.references
        ecmaNewEcmaString realm (string.units.take 10)
  | _ => return .magic []

/-- `ecma_builtin_json_stringify`. -/
def ecmaBuiltinJsonStringify (turns fuel : ℕ) (value replacer space : EcmaValue) :
    Native Script EcmaValue := do
  match ← replacerOptions realm turns replacer with
  | none => return .error
  | some (replacerFunction, propertyList) =>
      let space ← unwrapSpace realm space
      if space = .error then
        release (propertyListReferences propertyList)
        return .error
      else
        let gap ← gapString realm space
        ecmaFreeValue space
        let context : StringifyContext := ⟨[], [], [], propertyList, replacerFunction, gap⟩
        let result ← ecmaBuiltinJsonStrHelper realm fuel context value
        ecmaDerefEcmaString gap
        release (propertyListReferences propertyList)
        return result

/-- A call of `JSON.stringify` with one argument is a serialisation without options. -/
theorem ecmaBuiltinJsonStringify_undefined (turns fuel : ℕ) (value : EcmaValue) :
    ecmaBuiltinJsonStringify realm turns fuel value .undefined .undefined =
      ecmaBuiltinJsonStringifyNoOpts realm fuel value := by
  have copied : ∀ (frame : Frame) (world : World Script),
      (ecmaCopyValue .undefined : Native Script EcmaValue).run frame world =
        .done (.undefined, frame) world := by
    intro frame world
    have alive : frame.Alive (EcmaValue.references .undefined) := frame.alive_zero
    rw [run_ecmaCopyValue frame world alive, EcmaValue.references_simple, add_zero]
  have freed : (ecmaFreeValue .undefined : Native Script Unit) = release 0 := rfl
  have nothing : propertyListReferences none = 0 := rfl
  ext frame world
  simp only [ecmaBuiltinJsonStringify, replacerOptions, unwrapSpace, gapString, freed, nothing,
    ecmaBuiltinJsonStringifyNoOpts, Routine.run_bind, Routine.run_pure, Program.bind_done, copied,
    EcmaValue.simple.injEq, reduceCtorEq, if_false, run_release_zero]

end Native

end Cmsframe
