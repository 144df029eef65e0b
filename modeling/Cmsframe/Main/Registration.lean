import Cmsframe.Main.Calls

/-!
# Registering a native function

`register_js_function` with the engine functions below it: `jerryx_register_global` sets
a property of the global object and answers with a C `bool`, and the caller examines
that answer as if it were an engine value. Engine values are therefore modelled by
their 32-bit words here. The words returned by `ecma_op_object_put` decide what is
stored; references are not counted.
-/

namespace Cmsframe

open Interaction
open Unicode (CodeUnit utf8 asciiUnits)

/-- `ecma_value_t` and `jerry_value_t`. -/
abbrev EcmaWord := BitVec 32

namespace EcmaWord

/-- `ECMA_VALUE_TYPE_MASK`. -/
def typeMask : EcmaWord := 0x7

/-- `ECMA_TYPE_OBJECT` and `ECMA_TYPE_ERROR`. -/
def typeObject : EcmaWord := 3

def typeError : EcmaWord := 7

/-- `ecma_get_value_type_field`. -/
def ecmaGetValueTypeField (value : EcmaWord) : EcmaWord := value &&& typeMask

/-- `ECMA_MAKE_VALUE`. -/
def ecmaMakeValue (value : EcmaWord) : EcmaWord := (value <<< 4) ||| (1 <<< 3)

/-- `ECMA_VALUE_ERROR` and `ECMA_VALUE_TRUE`. -/
def ecmaValueError : EcmaWord := ecmaMakeValue 1

def ecmaValueTrue : EcmaWord := ecmaMakeValue 3

/-- `ecma_make_object_value` of a compressed pointer. -/
def ecmaMakeObjectValue (pointer : EcmaWord) : EcmaWord := (pointer <<< 3) ||| typeObject

/-- `ecma_make_extended_primitive_value` with the type of exceptions. -/
def ecmaMakeExceptionValue (pointer : EcmaWord) : EcmaWord := (pointer <<< 3) ||| typeError

/-- `ecma_is_value_exception` and `jerry_value_is_exception`. -/
def ecmaIsValueException (value : EcmaWord) : Bool := ecmaGetValueTypeField value = typeError

/-- `ecma_is_value_object`. -/
def ecmaIsValueObject (value : EcmaWord) : Bool := ecmaGetValueTypeField value = typeObject

/-- `ecma_is_value_true` and `jerry_value_is_true`. -/
def ecmaIsValueTrue (value : EcmaWord) : Bool := value = ecmaValueTrue

/-- A C `bool` converted to `jerry_value_t`. -/
def ofBool (answer : Bool) : EcmaWord := if answer then 1 else 0

/-- The bits of a compressed pointer are above the tag. -/
theorem shiftLeft_and_typeMask (pointer : EcmaWord) : (pointer <<< 3) &&& typeMask = 0 := by
  apply BitVec.eq_of_toNat_eq
  have low := Nat.and_two_pow_sub_one_eq_mod (pointer <<< 3).toNat 3
  rw [BitVec.toNat_and]
  calc (pointer <<< 3).toNat &&& typeMask.toNat = (pointer <<< 3).toNat % 2 ^ 3 := low
    _ = 0 := by
      rw [BitVec.toNat_shiftLeft, Nat.shiftLeft_eq]
      omega

theorem typeField_tagged (pointer : EcmaWord) (tag : EcmaWord) (isTag : tag &&& typeMask = tag) :
    ecmaGetValueTypeField ((pointer <<< 3) ||| tag) = tag := by
  rw [ecmaGetValueTypeField, BitVec.and_or_distrib_right, shiftLeft_and_typeMask, isTag]
  exact BitVec.zero_or

theorem ecmaIsValueObject_makeObjectValue (pointer : EcmaWord) :
    ecmaIsValueObject (ecmaMakeObjectValue pointer) = true := by
  have tag := typeField_tagged pointer typeObject (by decide)
  rw [ecmaIsValueObject, ecmaMakeObjectValue]
  exact decide_eq_true tag

theorem ecmaIsValueException_makeObjectValue (pointer : EcmaWord) :
    ecmaIsValueException (ecmaMakeObjectValue pointer) = false := by
  have tag := typeField_tagged pointer typeObject (by decide)
  rw [ecmaIsValueException, ecmaMakeObjectValue, tag]
  decide

theorem ecmaMakeExceptionValue_ne_true (pointer : EcmaWord) :
    ecmaMakeExceptionValue pointer ≠ ecmaValueTrue := by
  intro same
  have tag := typeField_tagged pointer typeError (by decide)
  rw [← ecmaMakeExceptionValue, same] at tag
  exact absurd tag (by decide)

/-- Under the encoding of values a C `bool` is never an exception. -/
theorem ecmaIsValueException_ofBool (answer : Bool) :
    ecmaIsValueException (ofBool answer) = false := by
  cases answer <;> decide

end EcmaWord

namespace Registration

open EcmaWord

variable {Handler World : Type}

/-- An own property. A lazily created one counts as present: it is made when it is looked
up. -/
inductive Property where
  | data (value : EcmaWord) (writable : Bool)
  | accessor (setter : Option EcmaWord)

structure OrdinaryObject where
  properties : List CodeUnit → Option Property
  extensible : Bool

/-- The global object, and the ordinary objects on its prototype chain from the nearest on.
Beyond them is null or a proxy. -/
structure Realm (Handler World : Type) where
  global : OrdinaryObject
  globalPointer : EcmaWord
  prototypes : List OrdinaryObject
  proxy : Option EcmaWord
  next : EcmaWord
  handlers : List (EcmaWord × Handler)
  world : World

/-- The script functions that can run when a property is set, and the traps of a proxy. -/
structure UserCode (Handler World : Type) where
  callSetter (setter receiver value : EcmaWord) :
    Realm Handler World → EcmaWord × Realm Handler World
  proxySet (proxy : EcmaWord) (name : List CodeUnit) (value receiver : EcmaWord) :
    Realm Handler World → EcmaWord × Realm Handler World

/-- What the search along the prototype chain comes to. -/
inductive Inherited where
  | nothing
  | property (property : Property)
  | proxy (pointer : EcmaWord)

/-- The loop over the prototypes in `ecma_op_object_put_with_receiver`. -/
def searchPrototypes (proxy : Option EcmaWord) (name : List CodeUnit) :
    List OrdinaryObject → Inherited
  | [] =>
      match proxy with
      | some pointer => .proxy pointer
      | none => .nothing
  | object :: objects =>
      match object.properties name with
      | some property => .property property
      | none => searchPrototypes proxy name objects

/-- Store a data property of the global object. -/
def Realm.store (realm : Realm Handler World) (name : List CodeUnit) (value : EcmaWord) :
    Realm Handler World :=
  { realm with global := { realm.global with
      properties := Function.update realm.global.properties name (some (.data value true)) } }

/-- `ecma_raise_readonly_assignment` with the flag to throw. -/
def ecmaRaiseReadonlyAssignment (realm : Realm Handler World) : EcmaWord × Realm Handler World :=
  (ecmaValueError, realm)

variable (users : UserCode Handler World)

/-- The end of `ecma_op_object_put_with_receiver`. -/
def putSetter (setter : Option EcmaWord) (value : EcmaWord) (realm : Realm Handler World) :
    EcmaWord × Realm Handler World :=
  match setter with
  | none => ecmaRaiseReadonlyAssignment realm
  | some setter =>
      let answer := users.callSetter setter (ecmaMakeObjectValue realm.globalPointer) value realm
      if answer.1 = ecmaValueError then
        answer
      else
        (ecmaValueTrue, answer.2)

/-- `ecma_op_object_put_apply_receiver` for the global object. -/
def ecmaOpObjectPutApplyReceiver (name : List CodeUnit) (value : EcmaWord)
    (realm : Realm Handler World) : EcmaWord × Realm Handler World :=
  match realm.global.properties name with
  | some (.data _ writable) =>
      if writable then (ecmaValueTrue, realm.store name value) else (ecmaValueError, realm)
  | some (.accessor _) => (ecmaValueError, realm)
  | none => (ecmaValueTrue, realm.store name value)

/-- `ecma_op_object_put` on the global object, which is its own receiver. -/
def ecmaOpObjectPut (name : List CodeUnit) (value : EcmaWord) (realm : Realm Handler World) :
    EcmaWord × Realm Handler World :=
  match realm.global.properties name with
  | some (.data _ writable) =>
      if writable then
        (ecmaValueTrue, realm.store name value)
      else
        putSetter users none value realm
  | some (.accessor setter) => putSetter users setter value realm
  | none =>
      match searchPrototypes realm.proxy name realm.prototypes with
      | .proxy pointer =>
          users.proxySet pointer name value (ecmaMakeObjectValue realm.globalPointer) realm
      | .property (.accessor setter) => putSetter users setter value realm
      | .property (.data _ createNewProperty) =>
          if createNewProperty && realm.global.extensible then
            ecmaOpObjectPutApplyReceiver name value realm
          else
            putSetter users none value realm
      | .nothing =>
          if realm.global.extensible then
            ecmaOpObjectPutApplyReceiver name value realm
          else
            putSetter users none value realm

/-- `ecma_create_exception_from_context`. -/
def ecmaCreateExceptionFromContext (realm : Realm Handler World) :
    EcmaWord × Realm Handler World :=
  (ecmaMakeExceptionValue realm.next, { realm with next := realm.next + 1 })

/-- `jerry_return`. -/
def jerryReturn (answer : EcmaWord × Realm Handler World) : EcmaWord × Realm Handler World :=
  if answer.1 = ecmaValueError then ecmaCreateExceptionFromContext answer.2 else answer

/-- `jerry_object_set` on the global object. -/
def jerryObjectSet (object : EcmaWord) (name : List CodeUnit) (value : EcmaWord)
    (realm : Realm Handler World) : EcmaWord × Realm Handler World :=
  if ecmaIsValueException value || !ecmaIsValueObject object then
    ecmaCreateExceptionFromContext realm
  else
    jerryReturn (ecmaOpObjectPut users name value realm)

/-- `jerry_function_external`. -/
def jerryFunctionExternal (handler : Handler) (realm : Realm Handler World) :
    EcmaWord × Realm Handler World :=
  (ecmaMakeObjectValue realm.next,
    { realm with next := realm.next + 1, handlers := (realm.next, handler) :: realm.handlers })

/-- The answer of `jerry_object_set` in `jerryx_register_global`. -/
def registerGlobalSet (name : List CodeUnit) (handler : Handler) (realm : Realm Handler World) :
    EcmaWord × Realm Handler World :=
  let created := jerryFunctionExternal handler realm
  jerryObjectSet users (ecmaMakeObjectValue realm.globalPointer) name created.1 created.2

/-- `jerryx_register_global`. -/
def jerryxRegisterGlobal (name : List CodeUnit) (handler : Handler)
    (realm : Realm Handler World) : Bool × Realm Handler World :=
  let result := registerGlobalSet users name handler realm
  (ecmaIsValueTrue result.1, result.2)

/-- The message of `register_js_function`. -/
def registrationWarning (name : List CodeUnit) : LogLevel × List UInt8 :=
  (.warning, asciiBytes "Warning: failed to register '" ++ utf8 name ++ asciiBytes "' method.")

/-- `register_js_function`: what it passes to `jerry_log`, if anything. -/
def registerJsFunction (name : List CodeUnit) (handler : Handler)
    (realm : Realm Handler World) : Option (LogLevel × List UInt8) × Realm Handler World :=
  let registered := jerryxRegisterGlobal users name handler realm
  let resultVal := ofBool registered.1
  if ecmaIsValueException resultVal then
    (some (registrationWarning name), registered.2)
  else
    (none, registered.2)

section Answers

variable {name : List CodeUnit} {value : EcmaWord} {realm : Realm Handler World}

/-- The setter of an accessor exists and does not throw. -/
def SetterReturns (users : UserCode Handler World) (value : EcmaWord)
    (realm : Realm Handler World) : Option EcmaWord → Prop
  | none => False
  | some setter =>
      (users.callSetter setter (ecmaMakeObjectValue realm.globalPointer) value realm).1 ≠
        ecmaValueError

/-- The global object takes a value for a name: it has a writable property or a setter that
returns, or it is extensible and its prototypes do not stand in the way. -/
def Storable (users : UserCode Handler World) (name : List CodeUnit) (value : EcmaWord)
    (realm : Realm Handler World) : Prop :=
  match realm.global.properties name with
  | some (.data _ writable) => writable = true
  | some (.accessor setter) => SetterReturns users value realm setter
  | none =>
      match searchPrototypes realm.proxy name realm.prototypes with
      | .nothing => realm.global.extensible = true
      | .property (.data _ writable) => writable = true ∧ realm.global.extensible = true
      | .property (.accessor setter) => SetterReturns users value realm setter
      | .proxy pointer =>
          (users.proxySet pointer name value (ecmaMakeObjectValue realm.globalPointer) realm).1 =
            ecmaValueTrue

theorem putSetter_true_iff (setter : Option EcmaWord) :
    (putSetter users setter value realm).1 = ecmaValueTrue ↔
      SetterReturns users value realm setter := by
  cases setter with
  | none =>
      have notTrue : ecmaValueError ≠ ecmaValueTrue := by decide
      simp [putSetter, ecmaRaiseReadonlyAssignment, SetterReturns, notTrue]
  | some setter =>
      have notTrue : ecmaValueError ≠ ecmaValueTrue := by decide
      simp only [putSetter, SetterReturns]
      split_ifs with threw
      · exact iff_of_false (fun same => notTrue (threw.symm.trans same)) (fun no => no threw)
      · exact iff_of_true rfl threw

/-- A missing property is created, whatever the name. -/
theorem applyReceiver_absent (absent : realm.global.properties name = none) :
    ecmaOpObjectPutApplyReceiver name value realm = (ecmaValueTrue, realm.store name value) := by
  rw [ecmaOpObjectPutApplyReceiver, absent]

theorem ecmaOpObjectPut_true_iff :
    (ecmaOpObjectPut users name value realm).1 = ecmaValueTrue ↔
      Storable users name value realm := by
  rw [ecmaOpObjectPut, Storable]
  rcases present : realm.global.properties name with _ | ⟨old, writable⟩ | setter
  · rcases searchPrototypes realm.proxy name realm.prototypes with _ |
      (⟨old, writable⟩ | setter) | pointer
    · cases extensible : realm.global.extensible with
      | true => simp [applyReceiver_absent present]
      | false => simpa [SetterReturns] using putSetter_true_iff users none
    · cases extensible : realm.global.extensible with
      | true =>
          cases writable with
          | true => simp [applyReceiver_absent present]
          | false => simpa [SetterReturns] using putSetter_true_iff users none
      | false => simpa [SetterReturns] using putSetter_true_iff users none
    · exact putSetter_true_iff users setter
    · exact Iff.rfl
  · cases writable with
    | true => simp
    | false => simpa [SetterReturns] using putSetter_true_iff users none
  · exact putSetter_true_iff users setter

/-- `jerry_object_set` answers with the value true or with a reference to an exception that
is not the value true. -/
theorem jerryObjectSet_true_iff (object pointer : EcmaWord) :
    (jerryObjectSet users (ecmaMakeObjectValue object) name (ecmaMakeObjectValue pointer)
        realm).1 = ecmaValueTrue ↔
      Storable users name (ecmaMakeObjectValue pointer) realm := by
  have notTrue : ecmaValueError ≠ ecmaValueTrue := by decide
  rw [← ecmaOpObjectPut_true_iff users, jerryObjectSet, ecmaIsValueException_makeObjectValue,
    ecmaIsValueObject_makeObjectValue]
  simp only [Bool.not_true, Bool.or_self, Bool.false_eq_true, if_false, jerryReturn]
  split_ifs with threw
  · apply iff_of_false
    · exact ecmaMakeExceptionValue_ne_true _
    · exact fun same => notTrue (threw.symm.trans same)
  · exact Iff.rfl

end Answers

section Notice

/-- The warning is logged if and only if the function has not been stored. -/
def NoticesFailure (name : List CodeUnit) (handler : Handler) (realm : Realm Handler World) :
    Prop :=
  (registerJsFunction users name handler realm).1 = some (registrationWarning name) ↔
    (registerGlobalSet users name handler realm).1 ≠ ecmaValueTrue

/-- Nothing is ever logged. -/
theorem registerJsFunction_silent (name : List CodeUnit) (handler : Handler)
    (realm : Realm Handler World) : (registerJsFunction users name handler realm).1 = none := by
  rw [registerJsFunction, ecmaIsValueException_ofBool]
  rfl

/-- A failure is noticed exactly when there is none: the global object takes the function. -/
theorem noticesFailure_iff (name : List CodeUnit) (handler : Handler)
    (realm : Realm Handler World) :
    NoticesFailure users name handler realm ↔
      Storable users name (jerryFunctionExternal handler realm).1
        (jerryFunctionExternal handler realm).2 := by
  have answer : (registerGlobalSet users name handler realm).1 = ecmaValueTrue ↔ _ :=
    jerryObjectSet_true_iff users realm.globalPointer realm.next
  have registered : (jerryFunctionExternal handler realm).1 = ecmaMakeObjectValue realm.next := rfl
  rw [NoticesFailure, registerJsFunction_silent, registered, ← answer]
  constructor
  · intro notices
    by_contra notStored
    cases notices.mpr notStored
  · intro stored
    exact iff_of_false nofun (not_not.mpr stored)

/-- The global object of a new realm, as far as its property `NaN` goes. -/
def newRealm : Realm Unit Unit where
  global :=
    { properties := fun name => if name = asciiUnits (asciiBytes "NaN") then
        some (.data 2 false) else none
      extensible := true }
  globalPointer := 1
  prototypes := []
  proxy := none
  next := 2
  handlers := []
  world := ()

/-- No script function runs. -/
def noUserCode : UserCode Unit Unit where
  callSetter _ _ _ realm := (ecmaValueError, realm)
  proxySet _ _ _ _ realm := (ecmaValueError, realm)

/-- The failure to register a function named `NaN` goes unnoticed. -/
theorem not_noticesFailure_NaN :
    ¬NoticesFailure noUserCode (asciiUnits (asciiBytes "NaN")) () newRealm := by
  intro notices
  have notStored : (registerGlobalSet noUserCode (asciiUnits (asciiBytes "NaN")) ()
      newRealm).1 ≠ ecmaValueTrue := by
    decide
  have logged := notices.mpr notStored
  rw [registerJsFunction_silent] at logged
  cases logged

end Notice

end Registration

end Cmsframe
