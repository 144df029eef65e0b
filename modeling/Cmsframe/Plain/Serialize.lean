import Cmsframe.Json.Contract
import Cmsframe.Plain.Reads

/-!
# Serialising a plain heap

On a plain heap the serialiser is a traversal that keeps its path: its occurrence stack
is the path, and what it appends to its builder is the text of the tree that the
traversal computes. Text that turns out to belong to no member is taken back. As in the
contract of the serialiser, one property is followed assuming the properties below it,
and the induction is on the fuel.
-/

namespace Cmsframe

open Interaction
open Traversal (Stop explore)
open Unicode (CodeUnit cesu8 asciiUnits)

/-- The context of a serialisation without options. -/
def plainContext (bytes : List UInt8) (stack : List EcmaObject) : StringifyContext :=
  ⟨bytes, [], stack, none, none, .magic []⟩

section Context

variable (bytes more : List UInt8) (stack : List EcmaObject) (size : ℕ)

@[simp]
theorem append_plainContext :
    (plainContext bytes stack).append more = plainContext (bytes ++ more) stack := rfl

@[simp]
theorem revert_plainContext :
    (plainContext bytes stack).revert size = plainContext (bytes.take size) stack := rfl

@[simp]
theorem resultBuilder_plainContext : (plainContext bytes stack).resultBuilder = bytes := rfl

@[simp]
theorem indentBuilder_plainContext : (plainContext bytes stack).indentBuilder = [] := rfl

@[simp]
theorem propertyList_plainContext : (plainContext bytes stack).propertyList = none := rfl

@[simp]
theorem enter_plainContext (object : EcmaObject) :
    (plainContext bytes stack).enter object = plainContext bytes (object :: stack) := rfl

@[simp]
theorem indent_plainContext : (plainContext bytes stack).indent size = plainContext bytes stack :=
  rfl

@[simp]
theorem colon_plainContext :
    (plainContext bytes stack).colon = plainContext (bytes ++ [0x3A]) stack := rfl

@[simp]
theorem leave_plainContext (object : EcmaObject) :
    (plainContext bytes (object :: stack)).leave 0 = plainContext bytes stack := rfl

end Context

/-- How the serialiser ends where the traversal yields a result: the text of the tree is
appended, nothing is appended for a value without a JSON form, and a cycle raises the
exception. -/
def Writes (numbers : NumberConversion) (heap : PlainHeap) (bytes : List UInt8)
    (stack : List EcmaObject) (held lent : Multiset Pointer)
    (program : Program Fault Effect Effect.Reply (World PlainHeap) (Serialized × Frame)) :
    Except Stop (Option Json) → Prop
  | .ok (some json) => ∃ next, program = .done
      ((.empty, plainContext (bytes ++ cesu8 (json.units numbers)) stack), ⟨none, held, lent⟩)
        ⟨heap, next⟩
  | .ok none => ∃ next, program =
      .done ((.undefined, plainContext bytes stack), ⟨none, held, lent⟩) ⟨heap, next⟩
  | .error .cyclic => ∃ after address next, program = .done ((.error, after),
      ⟨some (Native.nativeError .typeError .theStructureIsCyclical address), held, lent⟩) ⟨heap, next⟩
  | .error .exhausted => program = .fault .outOfFuel

/-- The value in a holder. -/
def Holder.read (heap : PlainHeap) (key : EcmaString) : Holder → EcmaValue
  | .object target => (heap.read target key).value
  | .wrapper _ value => value

/-- The objects a serialisation can be inside of. -/
def PlainHeap.IsStack (heap : PlainHeap) (stack : List EcmaObject) : Prop :=
  ∀ object ∈ stack, heap.isCallable object = false ∧ object.nativeError = none

/-- The path of the traversal at an occurrence stack. -/
def pathOf (stack : List EcmaObject) : List EcmaValue := stack.map EcmaValue.object

/-- A serialiser of properties that writes what the traversal of the heap finds. -/
def WritesTrees (numbers : NumberConversion) (heap : PlainHeap) (fuel : ℕ)
    (serialize : Native.Serializer PlainHeap) : Prop :=
  ∀ (held lent : Multiset Pointer) (next : Pointer) (bytes : List UInt8)
    (stack : List EcmaObject) (holder : Holder) (key : EcmaString), heap.IsStack stack →
    heap.Owns (holder.read heap key) →
    (⟨none, held, lent⟩ : Frame).Alive {holder.target.address} →
    (⟨none, held, lent⟩ : Frame).Alive key.references →
    Writes numbers heap bytes stack held lent
      ((serialize (plainContext bytes stack) holder key).run ⟨none, held, lent⟩ ⟨heap, next⟩)
      (explore heap.successors heap.combine fuel (pathOf stack) (holder.read heap key))

namespace PlainHeap

variable {heap : PlainHeap} {object : EcmaObject} {stack : List EcmaObject}

theorem Owns.nativeError (owns : heap.Owns (.object object)) : object.nativeError = none := by
  simpa [EcmaValue.plain] using owns.plain

theorem Owns.exists_cell (owns : heap.Owns (.object object)) :
    ∃ cell, heap.cell object = some cell := by
  have inBounds := owns.inHeap object rfl
  refine ⟨heap.cells[object.address], ?_⟩
  rw [PlainHeap.cell, owns.nativeError]
  exact List.getElem?_eq_getElem inBounds

theorem Owns.specDefined {value : EcmaValue} (owns : heap.Owns value) :
    value.specDefined = true := by
  have plain := owns.plain
  cases value with
  | simple _ | exception _ _ _ => exact plain
  | _ => rfl

/-- The occurrence stack tells whether an object is on the path. -/
theorem hasObjectInStack_iff (owns : heap.Owns (.object object)) (isStack : heap.IsStack stack)
    (bytes : List UInt8) :
    (plainContext bytes stack).hasObjectInStack object = true ↔
      EcmaValue.object object ∈ pathOf stack := by
  have noError := owns.nativeError
  simp only [StringifyContext.hasObjectInStack, plainContext, List.any_eq_true,
    decide_eq_true_eq, pathOf, List.mem_map, EcmaValue.object.injEq]
  constructor
  · rintro ⟨item, mem, sameAddress⟩
    refine ⟨item, mem, ?_⟩
    have itemNoError := (isStack item mem).2
    rcases item with ⟨address, nativeError⟩
    rcases object with ⟨other, otherError⟩
    simp only at sameAddress itemNoError noError
    rw [sameAddress, itemNoError, noError]
  · rintro ⟨item, mem, rfl⟩
    exact ⟨item, mem, rfl⟩

theorem not_hasObjectInStack (owns : heap.Owns (.object object)) (isStack : heap.IsStack stack)
    (offPath : EcmaValue.object object ∉ pathOf stack) (bytes : List UInt8) :
    (plainContext bytes stack).hasObjectInStack object = false := by
  rw [Bool.eq_false_iff]
  intro inStack
  exact offPath ((hasObjectInStack_iff owns isStack bytes).mp inStack)

/-- A serialisation goes one object deeper. -/
theorem IsStack.push (isStack : heap.IsStack stack) (owns : heap.Owns (.object object))
    (notCallable : heap.isCallable object = false) : heap.IsStack (object :: stack) := by
  intro item mem
  rcases List.mem_cons.mp mem with rfl | inStack
  · exact ⟨notCallable, owns.nativeError⟩
  · exact isStack item inStack

theorem callable_not_mem_pathOf (isStack : heap.IsStack stack)
    (callable : heap.isCallable object = true) : EcmaValue.object object ∉ pathOf stack := by
  intro mem
  rcases List.mem_map.mp mem with ⟨item, inStack, same⟩
  cases same
  rw [(isStack object inStack).1] at callable
  cases callable

theorem not_object_not_mem_pathOf {value : EcmaValue} (notObject : value.isObject = false) :
    value ∉ pathOf stack := by
  intro mem
  rcases List.mem_map.mp mem with ⟨item, _, rfl⟩
  cases notObject

end PlainHeap

namespace Native

variable {numbers : NumberConversion} {isMagicString : List CodeUnit → Bool} {heap : PlainHeap}
variable {held lent : Multiset Pointer} {next : Pointer}

theorem run_ecmaOpIsCallable_plain {value : EcmaValue}
    (alive : (⟨none, held, lent⟩ : Frame).Alive value.references) :
    (ecmaOpIsCallable (plainRealm numbers isMagicString) value).run ⟨none, held, lent⟩
        ⟨heap, next⟩ =
      .done (heap.isFunction value, ⟨none, held, lent⟩) ⟨heap, next⟩ := by
  cases value with
  | object object =>
      have touched := run_touch _ (⟨heap, next⟩ : World PlainHeap) alive
      rw [EcmaValue.references_object] at touched
      simp only [ecmaOpIsCallable, Routine.run_bind, run_readWorld, Program.bind_done, touched,
        Routine.run_pure]
      rfl
  | _ => rfl

/-- Nothing replaces an object without a callable `toJSON`. -/
theorem run_callToJson_plain (key : EcmaString) (object : EcmaObject) :
    (callToJson (plainRealm numbers isMagicString) key (.object object)).run
        ⟨none, held + {object.address}, lent⟩ ⟨heap, next⟩ =
      .done (.object object, ⟨none, held + {object.address}, lent⟩) ⟨heap, next⟩ := by
  have notFunction := heap.toJson_not_function object
  generalize isRead : heap.read object (.magic (magicText "toJSON")) = toJson at notFunction
  have owned : (⟨none, held + {object.address}, lent⟩ : Frame).Alive {object.address} :=
    Frame.Alive.of_le_held (Multiset.le_add_left _ _)
  have stillOwned : (⟨none, held + {object.address} + {object.address}, lent⟩ : Frame).Alive
      {object.address} := Frame.Alive.of_le_held (Multiset.le_add_left _ _)
  have copied := @run_ecmaCopyValue _ _ (⟨heap, next⟩ : World PlainHeap) (.object object) owned
  have reads : (plainRealm numbers isMagicString).get object (.magic (magicText "toJSON"))
      (.object object) ⟨heap, next⟩ = .done (.ok toJson) ⟨heap, next⟩ := by
    rw [← isRead]
    rfl
  have got := run_callUserValue_of_done
    ⟨none, held + {object.address} + {object.address}, lent⟩ ⟨heap, next⟩ reads
  have derefed := run_release_of_eq (⟨heap, next⟩ : World PlainHeap)
    (add_right_comm (held + {object.address}) {object.address} toJson.value.references) none lent
  have toJsonOwned : (⟨none, held + {object.address} + toJson.value.references, lent⟩ :
      Frame).Alive toJson.value.references := Frame.Alive.of_le_held (Multiset.le_add_left _ _)
  simp only [callToJson, ecmaOpToObject, Routine.run_bind, EcmaValue.references_object, copied,
    Program.bind_done, Routine.run_pure, run_touch _ _ stillOwned, got, ecmaDerefObject, derefed,
    error_ne_of_specDefined toJson.specDefined, if_false,
    run_ecmaOpIsCallable_plain toJsonOwned, notFunction, Bool.false_eq_true,
    ecmaFreeValue_eq_release toJson.specDefined, run_release_acquired]


theorem run_ecmaOpObjectGet_plain {holder : Holder} {key : EcmaString}
    (valid : (holder.read heap key).specDefined = true)
    (holderAlive : (⟨none, held, lent⟩ : Frame).Alive {holder.target.address})
    (keyAlive : (⟨none, held, lent⟩ : Frame).Alive key.references) :
    (ecmaOpObjectGet (plainRealm numbers isMagicString) holder key).run ⟨none, held, lent⟩
        ⟨heap, next⟩ =
      .done (holder.read heap key, ⟨none, held + (holder.read heap key).references, lent⟩)
        ⟨heap, next⟩ := by
  have touched := run_touch _ (⟨heap, next⟩ : World PlainHeap) (holderAlive.add keyAlive)
  simp only [ecmaOpObjectGet, Routine.run_bind, touched, Program.bind_done]
  cases holder with
  | wrapper target value => rfl
  | object target =>
      exact @run_callUserValue_of_done _ _ _ _ (heap.read target key) _ rfl

/-- What the serialiser goes on with is the value in the holder: nothing replaces it. -/
theorem run_serializePropertyWith_plain {serialize : Serializer PlainHeap} {holder : Holder}
    {key : EcmaString} {bytes : List UInt8} {stack : List EcmaObject}
    (owns : heap.Owns (holder.read heap key))
    (holderAlive : (⟨none, held, lent⟩ : Frame).Alive {holder.target.address})
    (keyAlive : (⟨none, held, lent⟩ : Frame).Alive key.references) :
    (serializePropertyWith (plainRealm numbers isMagicString) serialize
        (plainContext bytes stack) holder key).run ⟨none, held, lent⟩ ⟨heap, next⟩ =
      (serializeValue (plainRealm numbers isMagicString) serialize (plainContext bytes stack)
        (holder.read heap key)).run ⟨none, held + (holder.read heap key).references, lent⟩
          ⟨heap, next⟩ := by
  have valid := owns.specDefined
  have got := @run_ecmaOpObjectGet_plain numbers isMagicString _ _ _ next _ _ valid holderAlive
    keyAlive
  have plain := owns.plain
  simp only [serializePropertyWith, Routine.run_bind, got, Program.bind_done,
    error_ne_of_specDefined valid, if_false]
  generalize holder.read heap key = value at plain valid
  have owned : (⟨none, held + value.references, lent⟩ : Frame).Alive value.references :=
    Frame.Alive.of_le_held (Multiset.le_add_left _ _)
  cases value with
  | bigintZero | bigint _ _ => cases plain
  | object object =>
      have touched := run_touch _ (⟨heap, next⟩ : World PlainHeap) owned
      rw [EcmaValue.references_object] at touched
      have kept := @run_callToJson_plain numbers isMagicString heap held lent next key object
      simp only [applyToJson, EcmaValue.references_object, kept, Program.bind_done,
        error_ne_of_specDefined valid, if_false, Routine.run_bind, applyReplacer, plainContext,
        Routine.run_pure, unwrapPrimitive, touched, run_readWorld]
      rfl
  | exception _ _ _ => cases valid
  | _ =>
      simp only [applyToJson, Routine.run_pure, Program.bind_done,
        error_ne_of_specDefined valid, if_false, Routine.run_bind, applyReplacer, plainContext,
        unwrapPrimitive]

end Native
end Cmsframe
