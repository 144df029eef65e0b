import Cmsframe.Engine.Conventions
import Cmsframe.Json.Serialize

/-!
# What a serialisation leaves behind

Whatever user code runs in the middle, the serialiser keeps one contract: it fails
no assertion, uses no cell after its release, owns afterwards exactly what it owned
before, and returns `ECMA_VALUE_ERROR` exactly when it leaves an exception pending.
Only the native stack can run out. The contract of one property is derived from
that of the properties below it, so the theorems about the object and array
routines are stated for any serialiser of properties that keeps the contract.
-/

namespace Cmsframe

open Interaction

/-- The references of the options a serialisation was started with. -/
def StringifyContext.references (context : StringifyContext) : Multiset Pointer :=
  ((context.propertyList.getD []).map EcmaString.references).sum +
    context.replacerFunction.elim 0 fun replacer => {replacer.address}

/-- The serialiser changes its builders, never its options. -/
def StringifyContext.SameOptions (left right : StringifyContext) : Prop :=
  left.propertyList = right.propertyList ∧ left.replacerFunction = right.replacerFunction

namespace StringifyContext

variable {context other third : StringifyContext}

theorem SameOptions.trans (first : context.SameOptions other) (second : other.SameOptions third) :
    context.SameOptions third :=
  ⟨first.1.trans second.1, first.2.trans second.2⟩

theorem sameOptions_append (bytes : List UInt8) : (context.append bytes).SameOptions context :=
  ⟨rfl, rfl⟩

theorem sameOptions_revert (size : ℕ) : (context.revert size).SameOptions context :=
  ⟨rfl, rfl⟩

theorem sameOptions_enter (object : EcmaObject) : (context.enter object).SameOptions context :=
  ⟨rfl, rfl⟩

theorem sameOptions_leave (size : ℕ) : (context.leave size).SameOptions context :=
  ⟨rfl, rfl⟩

theorem sameOptions_indent (size : ℕ) : (context.indent size).SameOptions context := by
  unfold indent
  split_ifs <;> exact ⟨rfl, rfl⟩

theorem sameOptions_colon : context.colon.SameOptions context := by
  simp only [colon]
  split_ifs <;> exact ⟨rfl, rfl⟩

theorem sameOptions_closeObject (leftBrace lastProp stepbackSize : ℕ) :
    (context.closeObject leftBrace lastProp stepbackSize).SameOptions context := by
  unfold closeObject
  refine (sameOptions_leave _).trans ((sameOptions_append _).trans ?_)
  split_ifs
  · exact (sameOptions_indent _).trans (sameOptions_revert _)
  · exact ⟨rfl, rfl⟩

theorem sameOptions_closeArray (leftSquare lastProp stepbackSize : ℕ) :
    (context.closeArray leftSquare lastProp stepbackSize).SameOptions context := by
  unfold closeArray
  refine (sameOptions_leave _).trans ((sameOptions_append _).trans ?_)
  split_ifs
  · exact (sameOptions_indent _).trans (sameOptions_revert _)
  · exact sameOptions_revert _

end StringifyContext

theorem StringifyContext.SameOptions.references_eq {left right : StringifyContext}
    (same : left.SameOptions right) : left.references = right.references := by
  rcases same with ⟨sameList, sameReplacer⟩
  simp [StringifyContext.references, sameList, sameReplacer]

/-- How the serialiser of a value returns. -/
def Serializes (held lent : Multiset Pointer) (context : StringifyContext)
    (answer : Serialized) (after : Frame) : Prop :=
  answer.2.SameOptions context ∧
    ((answer.1 = .error ∧ ∃ thrown, after = ⟨some thrown, held, lent⟩) ∨
      ((answer.1 = .empty ∨ answer.1 = .undefined) ∧ after = ⟨none, held, lent⟩))

/-- The wrapper object holds a script value. -/
def Holder.Valid : Holder → Prop
  | .object _ => True
  | .wrapper _ value => value.specDefined = true

/-- The contract of a serialiser of properties. -/
def KeepsContract {Script : Type} (tolerated : Fault → Prop) (serialize : Native.Serializer Script) :
    Prop :=
  ∀ (held lent : Multiset Pointer) (world : World Script) (context : StringifyContext)
    (holder : Holder) (key : EcmaString), holder.Valid →
    (⟨none, held, lent⟩ : Frame).Alive {holder.target.address} →
    (⟨none, held, lent⟩ : Frame).Alive key.references →
    (⟨none, held, lent⟩ : Frame).Alive context.references →
    ((serialize context holder key).run ⟨none, held, lent⟩ world).Ensures tolerated
      fun answer _ => Serializes held lent context answer.1 answer.2

open StringifyContext

namespace Native

variable {Script : Type} (realm : Realm Script) {tolerated : Fault → Prop}
variable {held lent : Multiset Pointer} (world : World Script)

theorem ensures_ecmaOpObjectGet {holder : Holder} (valid : holder.Valid) {key : EcmaString}
    (holderAlive : (⟨none, held, lent⟩ : Frame).Alive {holder.target.address})
    (keyAlive : (⟨none, held, lent⟩ : Frame).Alive key.references) :
    ((ecmaOpObjectGet realm holder key).run ⟨none, held, lent⟩ world).Ensures tolerated
      fun answer _ => ReturnsValue held lent answer.1 answer.2 := by
  have touched := run_touch _ world (holderAlive.add keyAlive)
  simp only [ecmaOpObjectGet, Routine.run_bind, touched, Program.bind_done]
  cases holder with
  | object object => exact ensures_callUserValue held lent world _
  | wrapper object value => exact .inr ⟨valid, rfl⟩

theorem ensures_ecmaOpFunctionCall {function : EcmaObject} {receiver : EcmaValue}
    {arguments : List EcmaValue}
    (functionAlive : (⟨none, held, lent⟩ : Frame).Alive {function.address})
    (receiverAlive : (⟨none, held, lent⟩ : Frame).Alive receiver.references)
    (argumentsAlive : (⟨none, held, lent⟩ : Frame).Alive
      (arguments.map EcmaValue.references).sum) :
    ((ecmaOpFunctionCall realm function receiver arguments).run ⟨none, held, lent⟩
      world).Ensures tolerated fun answer _ => ReturnsValue held lent answer.1 answer.2 := by
  have touched := run_touch _ world ((functionAlive.add receiverAlive).add argumentsAlive)
  simp only [ecmaOpFunctionCall, Routine.run_bind, touched, Program.bind_done]
  exact ensures_callUserValue held lent world _

theorem run_ecmaOpIsCallable {value : EcmaValue}
    (alive : (⟨none, held, lent⟩ : Frame).Alive value.references) :
    ∃ callable, (ecmaOpIsCallable realm value).run ⟨none, held, lent⟩ world =
      .done (callable, ⟨none, held, lent⟩) world ∧ (callable = true → value.isObject) := by
  cases value with
  | object object =>
      have touched := run_touch _ world alive
      simp only [EcmaValue.references] at touched
      refine ⟨realm.isCallable world object, ?_, fun _ => rfl⟩
      simp [ecmaOpIsCallable, touched]
  | _ => exact ⟨false, rfl, fun isTrue => absurd isTrue Bool.false_ne_true⟩

theorem run_createObject (frame : Frame) (template : NewObject) :
    (createObject realm template).run frame world =
      .done (⟨(realm.create template world).1, none⟩,
        { frame with held := frame.held + {(realm.create template world).1} })
        (realm.create template world).2 := rfl

/-- `ecma_op_to_object` gives one more reference to an object, new or existing. -/
theorem run_ecmaOpToObject {value : EcmaValue}
    (alive : (⟨none, held, lent⟩ : Frame).Alive value.references) :
    ∃ object after, (ecmaOpToObject realm value).run ⟨none, held, lent⟩ world =
      .done (object, ⟨none, held + {object.address}, lent⟩) after := by
  by_cases isObject : value.isObject = true
  · rcases EcmaValue.exists_object isObject with ⟨object, rfl⟩
    refine ⟨object, world, ?_⟩
    simp only [ecmaOpToObject, Routine.run_bind, run_ecmaCopyValue _ _ alive,
      Program.bind_done]
    rfl
  · refine ⟨⟨(realm.create (.bigintObject value) world).1, none⟩,
      (realm.create (.bigintObject value) world).2, ?_⟩
    cases value with
    | object object => exact absurd rfl isObject
    | _ =>
        simp only [ecmaOpToObject, Routine.run_bind, run_touch _ _ alive, Program.bind_done]
        rfl

/-- Step 3 hands over the reference of the value, or releases it on failure. -/
theorem ensures_callToJson {key : EcmaString} {value : EcmaValue}
    (valid : value.specDefined = true)
    (keyAlive : (⟨none, held, lent⟩ : Frame).Alive key.references) :
    ((callToJson realm key value).run ⟨none, held + value.references, lent⟩ world).Ensures
      tolerated fun answer _ => ReturnsValue held lent answer.1 answer.2 := by
  have owned : (⟨none, held + value.references, lent⟩ : Frame).Alive value.references :=
    Frame.Alive.of_le_held (Multiset.le_add_left _ _)
  rcases run_ecmaOpToObject realm world owned with ⟨object, created, toObject⟩
  have stillOwned : (⟨none, held + value.references + {object.address}, lent⟩ : Frame).Alive
      value.references := owned.mono (Multiset.le_add_right _ _)
  simp only [callToJson, Routine.run_bind, toObject, Program.bind_done,
    run_touch _ _ stillOwned]
  apply (ensures_callUserValue _ lent created _).bind
  rintro ⟨toJson, frame⟩ changed (⟨failed, thrown, sameFrame⟩ | ⟨toJsonValid, sameFrame⟩)
  · simp only at failed sameFrame
    subst failed sameFrame
    simp only [ecmaDerefObject, run_release_acquired, Program.bind_done, if_true,
      ecmaFreeValue_eq_release valid, Routine.run_bind, Routine.run_pure]
    exact .inl ⟨rfl, thrown, rfl⟩
  · simp only at toJsonValid sameFrame
    subst sameFrame
    have toJsonOwned : (⟨none, held + value.references + toJson.references, lent⟩ :
        Frame).Alive toJson.references := Frame.Alive.of_le_held (Multiset.le_add_left _ _)
    rcases run_ecmaOpIsCallable realm changed toJsonOwned with ⟨callable, asked, isObject⟩
    have derefed := run_release_of_eq changed
      (add_right_comm (held + value.references) {object.address} toJson.references) none lent
    simp only [ecmaDerefObject, derefed, Program.bind_done,
      error_ne_of_specDefined toJsonValid, if_false, Routine.run_bind, asked]
    cases callable with
    | false =>
        simp only [Bool.false_eq_true, if_false, ecmaFreeValue_eq_release toJsonValid,
          Routine.run_bind, run_release_acquired, Program.bind_done, Routine.run_pure]
        exact .inr ⟨valid, rfl⟩
    | true =>
        rcases EcmaValue.exists_object (isObject rfl) with ⟨function, rfl⟩
        rw [EcmaValue.references_object] at toJsonOwned
        simp only [if_true, Routine.run_bind, EcmaValue.references_object]
        have receiverAlive : (⟨none, held + value.references + {function.address}, lent⟩ :
            Frame).Alive value.references := owned.mono (Multiset.le_add_right _ _)
        have keyStillAlive : (⟨none, held + value.references + {function.address}, lent⟩ :
            Frame).Alive ([EcmaValue.string key].map EcmaValue.references).sum := by
          simp only [List.map_cons, List.map_nil, List.sum_cons, List.sum_nil, add_zero]
          exact keyAlive.mono ((Multiset.le_add_right _ _).trans (Multiset.le_add_right _ _))
        apply (ensures_ecmaOpFunctionCall realm changed toJsonOwned receiverAlive
          keyStillAlive).bind
        rintro ⟨result, frame⟩ final (⟨failed, thrown, sameFrame⟩ | ⟨resultValid, sameFrame⟩)
        · simp only at failed sameFrame
          subst failed sameFrame
          have freed := run_release_of_eq final
            (add_right_comm held value.references {function.address}) (some thrown) lent
          simp only [ecmaFreeValue_eq_release valid, freed, Program.bind_done, if_true,
            Routine.run_bind, run_release_acquired, Routine.run_pure]
          exact .inl ⟨rfl, thrown, rfl⟩
        · simp only at resultValid sameFrame
          subst sameFrame
          have freed := run_release_of_eq final
            (show held + value.references + {function.address} + result.references =
              held + {function.address} + result.references + value.references by ac_rfl)
            none lent
          have freedToJson := run_release_of_eq final
            (add_right_comm held {function.address} result.references) none lent
          have functionValid : (EcmaValue.object function).specDefined = true := rfl
          simp only [ecmaFreeValue_eq_release valid, ecmaFreeValue_eq_release functionValid,
            freed, Program.bind_done, error_ne_of_specDefined resultValid, if_false,
            Routine.run_bind, EcmaValue.references_object, freedToJson, Routine.run_pure]
          exact .inr ⟨resultValid, rfl⟩

theorem ensures_applyToJson {key : EcmaString} {value : EcmaValue}
    (valid : value.specDefined = true)
    (keyAlive : (⟨none, held, lent⟩ : Frame).Alive key.references) :
    ((applyToJson realm key value).run ⟨none, held + value.references, lent⟩ world).Ensures
      tolerated fun answer _ => ReturnsValue held lent answer.1 answer.2 := by
  cases value with
  | object _ | bigintZero | bigint _ _ => exact ensures_callToJson realm world valid keyAlive
  | _ => exact .inr ⟨valid, rfl⟩

theorem ensures_callReplacer {replacer : EcmaObject} {holder : Holder} {key : EcmaString}
    {value : EcmaValue} (valid : value.specDefined = true)
    (replacerAlive : (⟨none, held, lent⟩ : Frame).Alive {replacer.address})
    (holderAlive : (⟨none, held, lent⟩ : Frame).Alive {holder.target.address})
    (keyAlive : (⟨none, held, lent⟩ : Frame).Alive key.references) :
    ((callReplacer realm replacer holder key value).run
        ⟨none, held + value.references, lent⟩ world).Ensures
      tolerated fun answer _ => ReturnsValue held lent answer.1 answer.2 := by
  have more : held ≤ held + value.references := Multiset.le_add_right _ _
  have argumentsAlive : (⟨none, held + value.references, lent⟩ : Frame).Alive
      ([EcmaValue.string key, value].map EcmaValue.references).sum := by
    simp only [List.map_cons, List.map_nil, List.sum_cons, List.sum_nil, add_zero]
    exact (keyAlive.mono more).add (Frame.Alive.of_le_held (Multiset.le_add_left _ _))
  simp only [callReplacer, Routine.run_bind]
  apply (ensures_ecmaOpFunctionCall realm world (replacerAlive.mono more)
    (holderAlive.mono more) argumentsAlive).bind
  rintro ⟨result, frame⟩ changed (⟨failed, thrown, sameFrame⟩ | ⟨resultValid, sameFrame⟩)
  · simp only at failed sameFrame
    subst failed sameFrame
    simp only [ecmaFreeValue_eq_release valid, run_release_acquired, Program.bind_done,
      Routine.run_pure]
    exact .inl ⟨rfl, thrown, rfl⟩
  · simp only at resultValid sameFrame
    subst sameFrame
    have freed := run_release_of_eq changed
      (add_right_comm held value.references result.references) none lent
    simp only [ecmaFreeValue_eq_release valid, freed, Program.bind_done, Routine.run_pure]
    exact .inr ⟨resultValid, rfl⟩

theorem ensures_applyReplacer {context : StringifyContext} {holder : Holder}
    {key : EcmaString} {value : EcmaValue} (valid : value.specDefined = true)
    (contextAlive : (⟨none, held, lent⟩ : Frame).Alive context.references)
    (holderAlive : (⟨none, held, lent⟩ : Frame).Alive {holder.target.address})
    (keyAlive : (⟨none, held, lent⟩ : Frame).Alive key.references) :
    ((applyReplacer realm context.replacerFunction holder key value).run
        ⟨none, held + value.references, lent⟩ world).Ensures
      tolerated fun answer _ => ReturnsValue held lent answer.1 answer.2 := by
  cases given : context.replacerFunction with
  | none => exact .inr ⟨valid, rfl⟩
  | some replacer =>
      have replacerAlive : (⟨none, held, lent⟩ : Frame).Alive {replacer.address} := by
        intro address mem
        apply contextAlive
        simp only [StringifyContext.references, given, Option.elim_some]
        exact Multiset.mem_add.mpr (.inr mem)
      exact ensures_callReplacer realm world valid replacerAlive holderAlive keyAlive

/-- Step 5 hands over the reference of the value, or releases it on failure. -/
theorem ensures_unwrapPrimitive {value : EcmaValue} (valid : value.specDefined = true) :
    ((unwrapPrimitive realm value).run ⟨none, held + value.references, lent⟩ world).Ensures
      tolerated fun answer _ => ReturnsValue held lent answer.1 answer.2 := by
  by_cases isObject : value.isObject = true
  · rcases EcmaValue.exists_object isObject with ⟨object, rfl⟩
    have owned : (⟨none, held + {object.address}, lent⟩ : Frame).Alive {object.address} :=
      Frame.Alive.of_le_held (Multiset.le_add_left _ _)
    simp only [unwrapPrimitive, EcmaValue.references_object, Routine.run_bind,
      run_touch _ _ owned, run_readWorld, Program.bind_done]
    cases realm.classOf world object with
    | number =>
        simp only [Routine.run_bind]
        apply (ensures_callUser _ lent world (realm.toNumber object)).bind
        rintro ⟨outcome, frame⟩ changed
          (⟨noResult, thrown, sameFrame⟩ | ⟨number, some, sameFrame⟩)
        · simp only at noResult sameFrame
          subst noResult sameFrame
          simp only [ecmaDerefObject, run_release_acquired, Program.bind_done]
          exact .inl ⟨rfl, thrown, rfl⟩
        · simp only at some sameFrame
          subst some sameFrame
          simp only [ecmaDerefObject, run_release_acquired, Program.bind_done]
          apply (settles_ecmaMakeNumberValue held lent changed number).ensures.mono
          rintro ⟨made, frame⟩ after ⟨madeValid, sameFrame, _⟩
          exact .inr ⟨madeValid, sameFrame⟩
    | string =>
        simp only [Routine.run_bind]
        apply (ensures_ecmaOpToString realm _ lent world valid owned).bind
        rintro ⟨outcome, frame⟩ changed
          (⟨noResult, thrown, sameFrame⟩ | ⟨string, some, sameFrame⟩)
        · simp only at noResult sameFrame
          subst noResult sameFrame
          simp only [ecmaDerefObject, run_release_acquired, Program.bind_done]
          exact .inl ⟨rfl, thrown, rfl⟩
        · simp only at some sameFrame
          subst some sameFrame
          have derefed := run_release_of_eq changed
            (add_right_comm held {object.address} string.references) none lent
          simp only [ecmaDerefObject, derefed, Program.bind_done]
          exact .inr ⟨rfl, rfl⟩
    | boolean unwrapped =>
        simp only [ecmaDerefObject, Routine.run_bind, run_release_acquired, Program.bind_done,
          Routine.run_pure]
        refine .inr ⟨?_, ?_⟩
        · cases unwrapped <;> rfl
        · simp
    | bigint unwrapped =>
        have derefed := run_release_of_eq world
          (add_right_comm held {object.address} unwrapped.value.references) none lent
        simp only [ecmaDerefObject, Routine.run_bind, run_acquire, derefed, Program.bind_done,
          Routine.run_pure]
        exact .inr ⟨unwrapped.specDefined, rfl⟩
    | other => exact .inr ⟨rfl, rfl⟩
  · have same : unwrapPrimitive realm value = pure value := by
      cases value with
      | object object => exact absurd rfl isObject
      | _ => rfl
    rw [same]
    exact .inr ⟨valid, rfl⟩

theorem settles_ecmaNewEcmaStringFromLength (pending : Option Thrown)
    (held lent : Multiset Pointer) (number : ℕ) :
    ((ecmaNewEcmaStringFromLength realm number).run ⟨pending, held, lent⟩ world).Settles
      (YieldsString pending held lent world
        (if number < 2 ^ 32 then Unicode.asciiUnits (Decimal.decimal number)
          else numberUnits realm.numbers (EcmaNumber.ofInt number))) := by
  unfold ecmaNewEcmaStringFromLength
  split_ifs
  · exact settles_ecmaNewEcmaStringFromUint32 pending held lent world number
  · exact settles_ecmaNewEcmaStringFromNumber realm pending held lent world _

theorem run_quoteString {context : StringifyContext} {string : EcmaString}
    (alive : (⟨none, held, lent⟩ : Frame).Alive string.references) :
    (quoteString context string : Native Script StringifyContext).run
        ⟨none, held, lent⟩ world =
      .done (context.append ([0x22] ++ Unicode.cesu8 (escapeUnits string.units) ++ [0x22]),
        ⟨none, held, lent⟩) world := by
  simp only [quoteString, Routine.run_bind, run_touch _ _ alive, Program.bind_done,
    ecmaBuiltinJsonQuote_eq]
  rfl

theorem ensures_serializeNumber {context : StringifyContext} (value : EcmaValue)
    {number : EcmaNumber} (valid : value.specDefined = true)
    (notObject : value.isObject = false)
    (hasText : (primitiveUnits realm value).isSome = true) :
    ((serializeNumber realm context value number).run
        ⟨none, held + value.references, lent⟩ world).Ensures
      tolerated fun answer _ => Serializes held lent context answer.1 answer.2 := by
  unfold serializeNumber
  have owned : (⟨none, held + value.references, lent⟩ : Frame).Alive value.references :=
    Frame.Alive.of_le_held (Multiset.le_add_left _ _)
  have same : ecmaOpToString realm value = ecmaOpToStringPrimitive realm value := by
    cases value with
    | object object => cases notObject
    | _ => rfl
  split_ifs
  · simp only [Routine.run_bind, same]
    apply (settles_ecmaOpToStringPrimitive realm _ lent world valid notObject
      owned).ensures.bind
    rintro ⟨outcome, frame⟩ changed ⟨sameText, returns, _⟩
    simp only at sameText returns
    rcases returns with ⟨rfl, _⟩ | ⟨string, rfl, rfl⟩
    · rw [← sameText] at hasText
      cases hasText
    · simp only [ecmaDerefEcmaString, ecmaFreeValue_eq_release valid, run_release_acquired,
        Program.bind_done, Routine.run_bind, Routine.run_pure]
      exact ⟨⟨rfl, rfl⟩, .inr ⟨.inl rfl, rfl⟩⟩
  · simp only [ecmaFreeValue_eq_release valid, Routine.run_bind, run_release_acquired,
      Program.bind_done, Routine.run_pure]
    exact ⟨⟨rfl, rfl⟩, .inr ⟨.inl rfl, rfl⟩⟩

/-- How the loops of the object and array routines return. -/
def LoopReturns (held lent : Multiset Pointer) (context : StringifyContext)
    (answer : EcmaValue × ℕ × StringifyContext) (after : Frame) : Prop :=
  answer.2.2.SameOptions context ∧
    ((answer.1 = .error ∧ ∃ thrown, after = ⟨some thrown, held, lent⟩) ∨
      (answer.1 = .empty ∧ after = ⟨none, held, lent⟩))

section Routines

variable {serialize : Serializer Script} (keeps : KeepsContract tolerated serialize)
variable {object : EcmaObject}
  (objectAlive : (⟨none, held, lent⟩ : Frame).Alive {object.address})

include keeps objectAlive

theorem ensures_serializeKeys (separatorSize : ℕ) {keys : List EcmaString}
    (keysAlive : ∀ key ∈ keys, (⟨none, held, lent⟩ : Frame).Alive key.references)
    (lastProp : ℕ) (context : StringifyContext)
    (contextAlive : (⟨none, held, lent⟩ : Frame).Alive context.references) :
    ((serializeKeys serialize object separatorSize keys lastProp context).run
        ⟨none, held, lent⟩ world).Ensures
      tolerated fun answer _ => LoopReturns held lent context answer.1 answer.2 := by
  induction keys generalizing lastProp context world with
  | nil => exact ⟨⟨rfl, rfl⟩, .inr ⟨rfl, rfl⟩⟩
  | cons key keys ih =>
      have keyAlive := keysAlive key (by simp)
      have restAlive : ∀ other ∈ keys, (⟨none, held, lent⟩ : Frame).Alive other.references :=
        fun other mem => keysAlive other (by simp [mem])
      simp only [serializeKeys, Routine.run_bind, run_quoteString _ keyAlive,
        Program.bind_done]
      generalize opened : (StringifyContext.colon _) = before
      have sameBefore : before.SameOptions context := by
        rw [← opened]
        exact sameOptions_colon.trans ((sameOptions_append _).trans (sameOptions_indent _))
      have beforeAlive : (⟨none, held, lent⟩ : Frame).Alive before.references := by
        rw [sameBefore.references_eq]
        exact contextAlive
      apply (keeps held lent world before (.object object) key trivial objectAlive keyAlive
        beforeAlive).bind
      rintro ⟨⟨result, after⟩, frame⟩ changed ⟨same, ended⟩
      simp only at same ended
      have afterAlive : (⟨none, held, lent⟩ : Frame).Alive after.references := by
        rw [same.references_eq]
        exact beforeAlive
      rcases ended with ⟨rfl, thrown, rfl⟩ | ⟨done, rfl⟩
      · exact ⟨same.trans sameBefore, .inl ⟨rfl, thrown, rfl⟩⟩
      · rcases done with rfl | rfl
        · apply (ih changed restAlive _ (after.append [0x2C]) afterAlive).mono
          rintro answer _ ⟨sameEnd, returns⟩
          exact ⟨sameEnd.trans ((sameOptions_append _).trans (same.trans sameBefore)), returns⟩
        · apply (ih changed restAlive lastProp (after.revert lastProp) afterAlive).mono
          rintro answer _ ⟨sameEnd, returns⟩
          exact ⟨sameEnd.trans ((sameOptions_revert _).trans (same.trans sameBefore)), returns⟩

theorem ensures_serializeObjectKeys (stepbackSize : ℕ) {keys : List EcmaString}
    (keysAlive : ∀ key ∈ keys, (⟨none, held, lent⟩ : Frame).Alive key.references)
    (context : StringifyContext)
    (contextAlive : (⟨none, held, lent⟩ : Frame).Alive context.references) :
    ((serializeObjectKeys serialize stepbackSize context object keys).run
        ⟨none, held, lent⟩ world).Ensures
      tolerated fun answer _ => Serializes held lent context answer.1 answer.2 := by
  simp only [serializeObjectKeys, Routine.run_bind]
  apply (ensures_serializeKeys world keeps objectAlive _ keysAlive _
    (context.append [0x7B]) contextAlive).bind
  rintro ⟨⟨result, lastProp, after⟩, frame⟩ changed ⟨same, ended⟩
  simp only at same ended
  rcases ended with ⟨rfl, thrown, rfl⟩ | ⟨rfl, rfl⟩
  · exact ⟨same, .inl ⟨rfl, thrown, rfl⟩⟩
  · exact ⟨(sameOptions_closeObject _ _ _).trans same, .inr ⟨.inl rfl, rfl⟩⟩

theorem ensures_serializeObject (context : StringifyContext)
    (contextAlive : (⟨none, held, lent⟩ : Frame).Alive context.references) :
    ((serializeObject realm serialize context object).run ⟨none, held, lent⟩ world).Ensures
      tolerated fun answer _ => Serializes held lent context answer.1 answer.2 := by
  unfold serializeObject
  split_ifs with cyclic
  · simp only [Routine.run_bind, run_ecmaRaiseStandardError, Program.bind_done,
      Routine.run_pure]
    exact ⟨⟨rfl, rfl⟩, .inl ⟨rfl, _, rfl⟩⟩
  · simp only
    cases listed : (context.enter object).propertyList with
    | some keys =>
        have inContext : (keys.map EcmaString.references).sum ≤ context.references := by
          have sameList : context.propertyList = some keys := listed
          simp only [StringifyContext.references, sameList, Option.getD_some]
          exact Multiset.le_add_right _ _
        have keysAlive : ∀ key ∈ keys,
            (⟨none, held, lent⟩ : Frame).Alive key.references := by
          intro key mem address addressMem
          exact contextAlive address
            (Multiset.mem_of_le ((le_sum_map EcmaString.references mem).trans inContext) addressMem)
        simp only
        apply (ensures_serializeObjectKeys world keeps objectAlive _ keysAlive
          (context.enter object) contextAlive).mono
        rintro answer _ ⟨same, returns⟩
        exact ⟨same.trans (sameOptions_enter _), returns⟩
    | none =>
        simp only [Routine.run_bind, run_touch _ _ objectAlive, Program.bind_done]
        apply (ensures_callUser held lent world (realm.enumerablePropertyNames object)).bind
        rintro ⟨outcome, frame⟩ changed
          (⟨noResult, thrown, sameFrame⟩ | ⟨keys, some, sameFrame⟩)
        · simp only at noResult sameFrame
          subst noResult sameFrame
          exact ⟨sameOptions_enter _, .inl ⟨rfl, thrown, rfl⟩⟩
        · simp only at some sameFrame
          subst some sameFrame
          simp only [Routine.run_bind, run_acquire, Program.bind_done]
          have more : held ≤ held + (keys.map EcmaString.references).sum :=
            Multiset.le_add_right _ _
          have keysAlive : ∀ key ∈ keys,
              (⟨none, held + (keys.map EcmaString.references).sum, lent⟩ : Frame).Alive
                key.references :=
            fun key mem => Frame.Alive.of_le_held
              ((le_sum_map EcmaString.references mem).trans (Multiset.le_add_left _ _))
          apply (ensures_serializeObjectKeys changed keeps (objectAlive.mono more) _ keysAlive
            (context.enter object) (contextAlive.mono more)).bind
          rintro ⟨⟨result, after⟩, frame⟩ final ⟨same, ended⟩
          simp only at same ended
          rcases ended with ⟨rfl, thrown, rfl⟩ | ⟨done, rfl⟩
          · simp only [run_release_acquired, Program.bind_done, Routine.run_pure]
            exact ⟨same.trans (sameOptions_enter _), .inl ⟨rfl, thrown, rfl⟩⟩
          · simp only [run_release_acquired, Program.bind_done, Routine.run_pure]
            exact ⟨same.trans (sameOptions_enter _), .inr ⟨done, rfl⟩⟩

theorem ensures_serializeElements (separatorSize remaining index lastProp : ℕ)
    (context : StringifyContext)
    (contextAlive : (⟨none, held, lent⟩ : Frame).Alive context.references) :
    ((serializeElements realm serialize object separatorSize remaining index lastProp
        context).run ⟨none, held, lent⟩ world).Ensures
      tolerated fun answer _ => LoopReturns held lent context answer.1 answer.2 := by
  induction remaining generalizing index lastProp context world with
  | zero => exact ⟨⟨rfl, rfl⟩, .inr ⟨rfl, rfl⟩⟩
  | succ remaining ih =>
      simp only [serializeElements, Routine.run_bind]
      apply (settles_ecmaNewEcmaStringFromLength realm world none held lent
        index).ensures.bind
      rintro ⟨key, frame⟩ made ⟨_, sameFrame, _⟩
      simp only at sameFrame
      subst sameFrame
      have more : held ≤ held + key.references := Multiset.le_add_right _ _
      have sameBefore : (context.indent separatorSize).SameOptions context :=
        sameOptions_indent _
      have beforeAlive : (⟨none, held, lent⟩ : Frame).Alive
          (context.indent separatorSize).references := by
        rw [sameBefore.references_eq]
        exact contextAlive
      apply (keeps _ lent made _ (.object object) key trivial (objectAlive.mono more)
        (Frame.Alive.of_le_held (Multiset.le_add_left _ _)) (beforeAlive.mono more)).bind
      rintro ⟨⟨result, after⟩, frame⟩ changed ⟨same, ended⟩
      simp only at same ended
      have afterAlive : (⟨none, held, lent⟩ : Frame).Alive after.references := by
        rw [same.references_eq]
        exact beforeAlive
      rcases ended with ⟨rfl, thrown, rfl⟩ | ⟨done, rfl⟩
      · simp only [ecmaDerefEcmaString, run_release_acquired, Program.bind_done]
        exact ⟨same.trans sameBefore, .inl ⟨rfl, thrown, rfl⟩⟩
      · simp only [ecmaDerefEcmaString, run_release_acquired, Program.bind_done]
        rcases done with rfl | rfl
        · apply (ih changed (index + 1) _ (after.append [0x2C]) afterAlive).mono
          rintro answer _ ⟨sameEnd, returns⟩
          exact ⟨sameEnd.trans ((sameOptions_append _).trans (same.trans sameBefore)), returns⟩
        · apply (ih changed (index + 1) _ ((after.append (asciiBytes "null")).append [0x2C])
            afterAlive).mono
          rintro answer _ ⟨sameEnd, returns⟩
          exact ⟨sameEnd.trans ((sameOptions_append _).trans ((sameOptions_append _).trans
            (same.trans sameBefore))), returns⟩

theorem ensures_serializeArray (context : StringifyContext)
    (isArray : realm.isArray world object = some true)
    (contextAlive : (⟨none, held, lent⟩ : Frame).Alive context.references) :
    ((serializeArray realm serialize context object).run ⟨none, held, lent⟩ world).Ensures
      tolerated fun answer _ => Serializes held lent context answer.1 answer.2 := by
  simp only [serializeArray, Routine.run_bind, run_readWorld, Program.bind_done,
    run_touch _ _ objectAlive, isArray, decide_true, run_jerryAssert_true]
  split_ifs with cyclic
  · simp only [Routine.run_bind, run_ecmaRaiseStandardError, Program.bind_done,
      Routine.run_pure]
    exact ⟨⟨rfl, rfl⟩, .inl ⟨rfl, _, rfl⟩⟩
  · simp only [Routine.run_bind]
    apply (ensures_callUser held lent world (realm.getLength object)).bind
    rintro ⟨outcome, frame⟩ changed
      (⟨noResult, thrown, sameFrame⟩ | ⟨arrayLength, some, sameFrame⟩)
    · simp only at noResult sameFrame
      subst noResult sameFrame
      exact ⟨sameOptions_enter _, .inl ⟨rfl, thrown, rfl⟩⟩
    · simp only at some sameFrame
      subst some sameFrame
      simp only [Routine.run_bind]
      apply (ensures_serializeElements realm changed keeps objectAlive _ arrayLength 0 _
        ((context.enter object).append [0x5B]) contextAlive).bind
      rintro ⟨⟨result, lastProp, after⟩, frame⟩ final ⟨same, ended⟩
      simp only at same ended
      have sameContext := same.trans ((sameOptions_append _).trans (sameOptions_enter _))
      rcases ended with ⟨rfl, thrown, rfl⟩ | ⟨rfl, rfl⟩
      · exact ⟨sameContext, .inl ⟨rfl, thrown, rfl⟩⟩
      · exact ⟨(sameOptions_closeArray _ _ _).trans sameContext, .inr ⟨.inl rfl, rfl⟩⟩

omit objectAlive in
/-- Steps 6 to 12 release the value. -/
theorem ensures_serializeValue {value : EcmaValue} (valid : value.specDefined = true)
    (context : StringifyContext)
    (contextAlive : (⟨none, held, lent⟩ : Frame).Alive context.references) :
    ((serializeValue realm serialize context value).run
        ⟨none, held + value.references, lent⟩ world).Ensures
      tolerated fun answer _ => Serializes held lent context answer.1 answer.2 := by
  have more : held ≤ held + value.references := Multiset.le_add_right _ _
  have owned : (⟨none, held + value.references, lent⟩ : Frame).Alive value.references :=
    Frame.Alive.of_le_held (Multiset.le_add_left _ _)
  have noForm : serializeValue realm serialize context value = (do
        ecmaFreeValue value
        return (.undefined, context)) →
      ((serializeValue realm serialize context value).run
        ⟨none, held + value.references, lent⟩ world).Ensures
        tolerated fun answer _ => Serializes held lent context answer.1 answer.2 := by
    intro same
    simp only [same, ecmaFreeValue_eq_release valid, Routine.run_bind, run_release_acquired,
      Program.bind_done, Routine.run_pure]
    exact ⟨⟨rfl, rfl⟩, .inr ⟨.inr rfl, rfl⟩⟩
  cases value with
  | simple simple =>
      cases simple with
      | null | true | false => exact ⟨⟨rfl, rfl⟩, .inr ⟨.inl rfl, by simp⟩⟩
      | _ => exact noForm rfl
  | symbol address description => exact noForm rfl
  | exception address inner abort => cases valid
  | string string =>
      rw [EcmaValue.references_string] at owned ⊢
      simp only [serializeValue, Routine.run_bind, run_quoteString _ owned, Program.bind_done,
        ecmaDerefEcmaString, run_release_acquired, Routine.run_pure]
      exact ⟨⟨rfl, rfl⟩, .inr ⟨.inl rfl, rfl⟩⟩
  | integer number =>
      exact ensures_serializeNumber realm world _ valid rfl rfl
  | float address number =>
      rw [EcmaValue.references_float] at owned
      simp only [serializeValue, Routine.run_bind, EcmaValue.references_float,
        run_touch _ _ owned, Program.bind_done]
      exact ensures_serializeNumber realm world (.float address number) valid rfl rfl
  | bigintZero =>
      simp only [serializeValue, ecmaFreeValue_eq_release valid, Routine.run_bind,
        run_release_acquired, run_ecmaRaiseStandardError, Program.bind_done, Routine.run_pure]
      exact ⟨⟨rfl, rfl⟩, .inl ⟨rfl, _, rfl⟩⟩
  | bigint address number =>
      simp only [serializeValue, ecmaFreeValue_eq_release valid, Routine.run_bind,
        run_release_acquired, run_ecmaRaiseStandardError, Program.bind_done, Routine.run_pure]
      exact ⟨⟨rfl, rfl⟩, .inl ⟨rfl, _, rfl⟩⟩
  | object object =>
      rcases run_ecmaOpIsCallable realm world owned with ⟨callable, asked, _⟩
      rw [EcmaValue.references_object] at more owned asked
      simp only [serializeValue, Routine.run_bind, EcmaValue.references_object, asked,
        Program.bind_done]
      cases callable with
      | true =>
          have freed := run_release_acquired world none held {object.address} lent
          simp only [if_true, ecmaFreeValue_eq_release valid, EcmaValue.references_object,
            Routine.run_bind, freed, Program.bind_done, Routine.run_pure]
          exact ⟨⟨rfl, rfl⟩, .inr ⟨.inr rfl, rfl⟩⟩
      | false =>
          simp only [Bool.false_eq_true, if_false, Routine.run_bind, run_readWorld,
            Program.bind_done]
          cases isArray : realm.isArray world object with
          | none =>
              simp only [Routine.run_bind, run_ecmaRaiseStandardError, Program.bind_done,
                ecmaFreeValue_eq_release valid, EcmaValue.references_object,
                run_release_acquired, Routine.run_pure]
              exact ⟨⟨rfl, rfl⟩, .inl ⟨rfl, _, rfl⟩⟩
          | some array =>
              cases array with
              | true =>
                  simp only [Routine.run_bind]
                  apply (ensures_serializeArray realm world keeps owned context isArray
                    (contextAlive.mono more)).bind
                  rintro ⟨⟨result, after⟩, frame⟩ changed ⟨same, ended⟩
                  simp only at same ended
                  rcases ended with ⟨rfl, thrown, rfl⟩ | ⟨done, rfl⟩
                  · simp only [ecmaDerefObject, run_release_acquired, Program.bind_done,
                      Routine.run_pure]
                    exact ⟨same, .inl ⟨rfl, thrown, rfl⟩⟩
                  · simp only [ecmaDerefObject, run_release_acquired, Program.bind_done,
                      Routine.run_pure]
                    exact ⟨same, .inr ⟨done, rfl⟩⟩
              | false =>
                  simp only [Routine.run_bind]
                  apply (ensures_serializeObject realm world keeps owned context
                    (contextAlive.mono more)).bind
                  rintro ⟨⟨result, after⟩, frame⟩ changed ⟨same, ended⟩
                  simp only at same ended
                  rcases ended with ⟨rfl, thrown, rfl⟩ | ⟨done, rfl⟩
                  · simp only [ecmaDerefObject, run_release_acquired, Program.bind_done,
                      Routine.run_pure]
                    exact ⟨same, .inl ⟨rfl, thrown, rfl⟩⟩
                  · simp only [ecmaDerefObject, run_release_acquired, Program.bind_done,
                      Routine.run_pure]
                    exact ⟨same, .inr ⟨done, rfl⟩⟩

omit objectAlive in
/-- One property keeps the contract if the properties below it do. -/
theorem keepsContract_serializePropertyWith :
    KeepsContract tolerated (serializePropertyWith realm serialize) := by
  intro held lent world context holder key valid holderAlive keyAlive contextAlive
  simp only [serializePropertyWith, Routine.run_bind]
  apply (ensures_ecmaOpObjectGet realm world valid holderAlive keyAlive).bind
  rintro ⟨got, frame⟩ world (⟨failed, thrown, sameFrame⟩ | ⟨gotValid, sameFrame⟩)
  · simp only at failed sameFrame
    subst failed sameFrame
    exact ⟨⟨rfl, rfl⟩, .inl ⟨rfl, thrown, rfl⟩⟩
  simp only at gotValid sameFrame
  subst sameFrame
  simp only [error_ne_of_specDefined gotValid, if_false, Routine.run_bind]
  apply (ensures_applyToJson realm world gotValid keyAlive).bind
  rintro ⟨value, frame⟩ world (⟨failed, thrown, sameFrame⟩ | ⟨valueValid, sameFrame⟩)
  · simp only at failed sameFrame
    subst failed sameFrame
    exact ⟨⟨rfl, rfl⟩, .inl ⟨rfl, thrown, rfl⟩⟩
  simp only at valueValid sameFrame
  subst sameFrame
  simp only [error_ne_of_specDefined valueValid, if_false, Routine.run_bind]
  apply (ensures_applyReplacer realm world valueValid contextAlive holderAlive keyAlive).bind
  rintro ⟨value, frame⟩ world (⟨failed, thrown, sameFrame⟩ | ⟨valueValid, sameFrame⟩)
  · simp only at failed sameFrame
    subst failed sameFrame
    exact ⟨⟨rfl, rfl⟩, .inl ⟨rfl, thrown, rfl⟩⟩
  simp only at valueValid sameFrame
  subst sameFrame
  simp only [error_ne_of_specDefined valueValid, if_false, Routine.run_bind]
  apply (ensures_unwrapPrimitive realm world valueValid).bind
  rintro ⟨value, frame⟩ world (⟨failed, thrown, sameFrame⟩ | ⟨valueValid, sameFrame⟩)
  · simp only at failed sameFrame
    subst failed sameFrame
    exact ⟨⟨rfl, rfl⟩, .inl ⟨rfl, thrown, rfl⟩⟩
  simp only at valueValid sameFrame
  subst sameFrame
  simp only [error_ne_of_specDefined valueValid, if_false]
  exact ensures_serializeValue realm world keeps valueValid context contextAlive

end Routines

/-- The serialiser keeps its contract at every depth the native stack allows. -/
theorem keepsContract_ecmaBuiltinJsonSerializeProperty (tolerates : tolerated .outOfFuel)
    (fuel : ℕ) : KeepsContract tolerated (ecmaBuiltinJsonSerializeProperty realm fuel) := by
  induction fuel with
  | zero =>
      intro held lent world context holder key _ _ _ _
      exact tolerates
  | succ fuel ih => exact keepsContract_serializePropertyWith realm ih

/-- How a whole serialisation returns: the marker with a pending exception, undefined for a
value without a JSON form, or a new string. -/
def StringifyReturns (held lent : Multiset Pointer) (value : EcmaValue) (after : Frame) : Prop :=
  (value = .error ∧ ∃ thrown, after = ⟨some thrown, held, lent⟩) ∨
    (value = .undefined ∧ after = ⟨none, held, lent⟩) ∨
      (∃ string, value = .string string ∧ after = ⟨none, held + string.references, lent⟩)

theorem ensures_ecmaBuiltinJsonStrHelper (tolerates : tolerated .outOfFuel) (fuel : ℕ)
    {context : StringifyContext} {value : EcmaValue} (valid : value.specDefined = true)
    (alive : (⟨none, held, lent⟩ : Frame).Alive value.references)
    (contextAlive : (⟨none, held, lent⟩ : Frame).Alive context.references) :
    ((ecmaBuiltinJsonStrHelper realm fuel context value).run ⟨none, held, lent⟩ world).Ensures
      tolerated fun answer _ => StringifyReturns held lent answer.1 answer.2 := by
  simp only [ecmaBuiltinJsonStrHelper, Routine.run_bind, run_touch _ _ alive, run_createObject,
    Program.bind_done]
  generalize realm.create (.holder value) world = created
  rcases created with ⟨address, created⟩
  have more : held ≤ held + {address} := Multiset.le_add_right _ _
  apply (keepsContract_ecmaBuiltinJsonSerializeProperty realm tolerates fuel
    (held + {address}) lent created context.start (.wrapper ⟨address, none⟩ value) (.magic [])
    valid
    (Frame.Alive.of_le_held (Multiset.le_add_left _ _)) (Frame.alive_zero _)
    (contextAlive.mono more)).bind
  rintro ⟨⟨result, after⟩, frame⟩ changed ⟨_, ended⟩
  simp only at ended
  rcases ended with ⟨rfl, thrown, rfl⟩ | ⟨rfl | rfl, rfl⟩
  · simp only [ecmaDerefObject, run_release_acquired, Program.bind_done, true_or, if_true]
    exact .inl ⟨rfl, thrown, rfl⟩
  · simp only [ecmaDerefObject, run_release_acquired, Program.bind_done,
      EcmaValue.simple.injEq, reduceCtorEq, or_self, if_false, Routine.run_bind]
    apply (settles_ecmaNewEcmaString realm none held lent changed _).ensures.bind
    rintro ⟨string, frame⟩ final ⟨_, sameFrame, _⟩
    exact .inr (.inr ⟨string, rfl, sameFrame⟩)
  · simp only [ecmaDerefObject, run_release_acquired, Program.bind_done, or_true, if_true]
    exact .inr (.inl ⟨rfl, rfl⟩)

theorem ensures_ecmaBuiltinJsonStringifyNoOpts (tolerates : tolerated .outOfFuel) (fuel : ℕ)
    {value : EcmaValue} (valid : value.specDefined = true)
    (alive : (⟨none, held, lent⟩ : Frame).Alive value.references) :
    ((ecmaBuiltinJsonStringifyNoOpts realm fuel value).run ⟨none, held, lent⟩ world).Ensures
      tolerated fun answer _ => StringifyReturns held lent answer.1 answer.2 := by
  simp only [ecmaBuiltinJsonStringifyNoOpts, Routine.run_bind]
  apply (ensures_ecmaBuiltinJsonStrHelper realm world tolerates fuel valid alive
    (Frame.alive_zero _)).bind
  rintro ⟨result, frame⟩ changed returns
  simp only [ecmaDerefEcmaString, EcmaString.references, run_release_zero, Program.bind_done,
    Routine.run_pure]
  exact returns

end Native

end Cmsframe
