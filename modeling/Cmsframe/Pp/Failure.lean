import Cmsframe.Pp.Output

/-!
# When the argument of `pp` has no text

A serialisation can end in three ways: with a string, with a pending exception, or
with `undefined`. `cms_op_to_string` is meant to pass the second on to its caller
and to turn the third into a syntax error. It hands both to `ecma_op_to_string`
instead, which accepts script values only. The theorems of this file say for which
arguments the promises of the conversion are kept: for those whose serialisation, if
they need one, ends with a string.
-/

namespace Cmsframe

open Interaction

/-- User code that comes back at once. -/
def answerWith {Script α : Type} (result : α) : UserCode Script α := fun world =>
  .done (.ok result) world

/-- A small realm for examples: every object has the one property `a`. -/
def sampleRealm (property : ScriptValue) (callable : Bool) : Realm Unit where
  numbers := ⟨fun _ => ([], 0), fun _ => .nan⟩
  isMagicString _ := false
  bigintFits _ := true
  get _ key _ := answerWith (if key = .magic (magicText "a") then property else .undefined)
  enumerablePropertyNames _ := answerWith [.magic (magicText "a")]
  getLength _ := answerWith 0
  call _ _ _ := answerWith .undefined
  defaultValue _ := answerWith ⟨.undefined, ScriptValue.undefined_not_object⟩
  toNumber _ := answerWith .nan
  isCallable _ _ := callable
  isArray _ _ := some false
  classOf _ _ := .other
  create _ world := (world.next, { world with next := world.next + 1 })

/-- An object of the small realm. -/
def sampleObject : ScriptValue := .ofObject ⟨1, none⟩

/-- The environment in which a nested call does nothing. -/
def noNestedCalls : Answers Unit (List UInt8) := fun _ world =>
  ([], .ok .undefined, world)

namespace Native

variable {Script : Type} (realm : Realm Script) (fuel : ℕ)
variable (answers : Answers Script (List UInt8)) (lent : Multiset Pointer)
variable (world : World Script)

/-- The serialisation that `cms_op_to_string` starts on an object. -/
abbrev serialisation (object : EcmaObject) : Except Fault ((EcmaValue × Frame) × World Script) :=
  (ecmaBuiltinJsonStringifyNoOpts realm fuel (.object object)).returned answers lent world

/-- A value is ready to be printed: it is no object, or its serialisation, if it comes to an
end, ends with a string. -/
def HasText (value : EcmaValue) : Prop :=
  ∀ object result frame changed, value = .object object →
    serialisation realm fuel answers lent world object = .ok ((result, frame), changed) →
      ∃ string, result = .string string

/-- Go on with a string; any other result of the serialisation fails an assertion. -/
def onString {Result : Type} (next : EcmaString → Frame → World Script → Result) :
    (EcmaValue × Frame) × World Script → Except Fault Result
  | ((.string string, frame), world) => .ok (next string frame world)
  | _ => .error .assertion

section Object

variable {lent} {object : EcmaObject}

/-- The three ways a serialisation can end. -/
theorem serialisation_ends (alive : (Frame.initial lent).Alive {object.address}) :
    ((ecmaBuiltinJsonStringifyNoOpts realm fuel (.object object)).observe (answering answers)
      (Frame.initial lent) world).Ends (.outOfFuel = ·)
        fun answer => StringifyReturns 0 lent answer.1.1 answer.1.2 :=
  ensured_of_observe
    (ensures_ecmaBuiltinJsonStringifyNoOpts realm world rfl fuel rfl alive) answers

/-- The result of the conversion is decided by that of the serialisation. -/
theorem returned_cmsOpToString (alive : (Frame.initial lent).Alive {object.address}) :
    (cmsOpToString realm fuel (.object object)).returned answers lent world =
      (serialisation realm fuel answers lent world object).bind
        (onString fun string frame changed => ((some string, frame), changed)) := by
  simp only [returned, Routine.observe, Frame.initial]
  rw [run_cmsOpToString_object realm fuel world alive, Program.interpret_bind,
    Outcome.result_bind]
  congr 1
  funext answer
  rcases answer with ⟨⟨result, frame⟩, changed⟩
  cases result <;> rfl

/-- The same for the call that prints the value. -/
theorem returned_cmsPpValue (alive : (Frame.initial lent).Alive {object.address}) :
    (cmsPpValue realm fuel (.object object)).returned answers lent world =
      (serialisation realm fuel answers lent world object).bind
        (onString fun _ _ changed => ((.undefined, Frame.initial lent), changed)) := by
  have ends := serialisation_ends realm fuel answers world alive
  rw [returned, observe_cmsPpValue realm fuel id answers.nested rfl alive,
    conversion_object realm fuel id answers.nested alive, Outcome.bind_assoc, Outcome.result_bind,
    serialisation, returned]
  cases ended : ((ecmaBuiltinJsonStringifyNoOpts realm fuel (.object object)).observe
      (answering answers) (Frame.initial lent) world).result with
  | error reason => rfl
  | ok answer =>
      rcases answer with ⟨⟨result, frame⟩, changed⟩
      have returns : StringifyReturns 0 lent result frame := ends.of_ok ended
      rcases returns with ⟨rfl, thrown, rfl⟩ | ⟨rfl, rfl⟩ | ⟨string, rfl, rfl⟩
      · rfl
      · rfl
      · rfl

/-- A call that goes on with a string only comes to no assertion exactly if there is one. -/
theorem hasText_iff_bind {Result : Type} (alive : (Frame.initial lent).Alive {object.address})
    (next : EcmaString → Frame → World Script → Result) :
    HasText realm fuel answers lent world (.object object) ↔
      (serialisation realm fuel answers lent world object).bind (onString next) ≠
        .error .assertion := by
  have ends := serialisation_ends realm fuel answers world alive
  constructor
  · intro hasText
    cases ended : serialisation realm fuel answers lent world object with
    | error reason =>
        have isFuel : .outOfFuel = reason := ends.of_error ended
        subst isFuel
        exact nofun
    | ok answer =>
        rcases answer with ⟨⟨result, frame⟩, changed⟩
        rcases hasText object result frame changed rfl ended with ⟨string, rfl⟩
        exact nofun
  · intro noAssertion _ result frame changed same ended
    cases same
    rw [ended] at noAssertion
    rcases result with _ | _ | _ | string | _ | _ | _ | _ | _
    case string => exact ⟨string, rfl⟩
    all_goals exact absurd rfl noAssertion

end Object

/-- Apart from the native stack, nothing can stop a conversion. -/
theorem conversion_ends {value : EcmaValue} (valid : value.specDefined = true)
    (alive : (Frame.initial lent).Alive value.references) :
    (conversion realm fuel (answering answers) lent value world).Ends (.outOfFuel = ·)
      fun _ => True := by
  have ends : ((convertArgument realm fuel value).observe (answering answers)
      (Frame.initial lent) world).Ends (.outOfFuel = ·)
        fun answer => ReturnsString 0 lent answer.1.1 answer.1.2 :=
    ensured_of_observe (ensures_convertArgument realm fuel world rfl valid alive) answers
  rw [conversion, Outcome.Ends, Outcome.result_bind]
  cases ended : ((convertArgument realm fuel value).observe (answering answers)
      (Frame.initial lent) world).result with
  | error reason => exact ends.of_error ended
  | ok answer =>
      rcases answer with ⟨⟨string, frame⟩, changed⟩
      have returns : ReturnsString 0 lent string frame := ends.of_ok ended
      rcases returns with ⟨rfl, thrown, rfl⟩ | ⟨result, rfl, rfl⟩
      · trivial
      · trivial

/-- On a value that is no object the code behaves as promised. -/
theorem returned_cmsPpValue_of_not_object {value : ScriptValue}
    (notObject : value.value.isObject = false)
    (alive : (Frame.initial lent).Alive value.value.references) :
    (cmsPpValue realm fuel value.value).returned answers lent world ≠ .error .assertion := by
  have ends := conversion_ends realm fuel answers lent world value.specDefined alive
  rw [returned, observe_cmsPpValue realm fuel id answers.nested value.specDefined alive,
    Outcome.result_bind]
  cases ended : (conversion realm fuel (answering answers) lent value.value world).result with
  | error reason =>
      have isFuel : .outOfFuel = reason := ends.of_error ended
      subst isFuel
      exact nofun
  | ok answer =>
      rcases answer with ⟨thrown | string, changed⟩
      · simp [Except.bind, afterConversion, notObject]
      · simp [Except.bind, afterConversion]

/-- No assertion fails in printing a value exactly if the value has a text. -/
theorem returned_ne_assertion_iff {value : ScriptValue}
    (alive : (Frame.initial lent).Alive value.value.references) :
    (cmsPpValue realm fuel value.value).returned answers lent world ≠ .error .assertion ↔
      HasText realm fuel answers lent world value.value := by
  by_cases isObject : value.value.isObject = true
  · rcases value with ⟨value, valid⟩
    rcases EcmaValue.exists_object isObject with ⟨object, rfl⟩
    rw [returned_cmsPpValue realm fuel answers world alive]
    exact (hasText_iff_bind realm fuel answers world alive _).symm
  · have notObject : value.value.isObject = false := by simpa using isObject
    refine iff_of_true
      (returned_cmsPpValue_of_not_object realm fuel answers lent world notObject alive) ?_
    intro object result frame changed same _
    rw [same] at notObject
    cases notObject

/-- An object has a text exactly if its conversion does not fail. -/
theorem hasText_iff {value : EcmaValue} (isObject : value.isObject = true)
    (alive : (Frame.initial lent).Alive value.references) :
    HasText realm fuel answers lent world value ↔
      ∀ thrown changed, (conversion realm fuel (answering answers) lent value world).result ≠
        .ok (.error thrown, changed) := by
  rcases EcmaValue.exists_object isObject with ⟨object, rfl⟩
  have ends := serialisation_ends realm fuel answers world alive
  rw [conversion_object realm fuel id answers.nested alive, Outcome.result_bind]
  constructor
  · intro hasText thrown changed
    cases ended : ((ecmaBuiltinJsonStringifyNoOpts realm fuel (.object object)).observe
        (answering answers) (Frame.initial lent) world).result with
    | error reason => exact nofun
    | ok answer =>
        rcases answer with ⟨⟨result, frame⟩, left⟩
        rcases hasText object result frame left rfl ended with ⟨string, rfl⟩
        exact nofun
  · intro succeeds _ result frame changed same ended
    cases same
    rw [serialisation, returned] at ended
    have returns : StringifyReturns 0 lent result frame := ends.of_ok ended
    rw [ended] at succeeds
    rcases returns with ⟨rfl, thrown, rfl⟩ | ⟨rfl, rfl⟩ | ⟨string, rfl, rfl⟩
    · exact absurd rfl (succeeds thrown changed)
    · exact absurd rfl (succeeds _ _)
    · exact ⟨string, rfl⟩

/-- What `cms_op_to_string` hands to `ecma_op_to_string` and then to `ecma_free_value`. -/
def handedOn (object : EcmaObject) : Native Script EcmaValue := do
  let result ← ecmaBuiltinJsonStringifyNoOpts realm fuel (.object object)
  if result = .undefined then
    jerryThrowSz .syntaxError .jsonStringifyError
  else
    pure result

theorem cmsOpToString_object (object : EcmaObject) :
    cmsOpToString realm fuel (.object object) = (do
      let result ← handedOn realm fuel object
      let string ← ecmaOpToString realm result
      ecmaFreeValue result
      return string) := by
  simp [cmsOpToString, handedOn, EcmaValue.specDefined, EcmaValue.isObject, jerryAssert]

theorem returned_handedOn {object : EcmaObject}
    (hasText : HasText realm fuel answers lent world (.object object))
    {result : EcmaValue} {frame : Frame} {changed : World Script}
    (handed : (handedOn realm fuel object).returned answers lent world =
      .ok ((result, frame), changed)) : ∃ string, result = .string string := by
  rw [handedOn, returned, Routine.observe_bind, Outcome.result_bind] at handed
  cases ended : serialisation realm fuel answers lent world object with
  | error reason =>
      rw [serialisation, returned] at ended
      rw [ended] at handed
      cases handed
  | ok answer =>
      rcases answer with ⟨⟨value, after⟩, left⟩
      rcases hasText object value after left rfl ended with ⟨string, rfl⟩
      rw [serialisation, returned] at ended
      rw [ended] at handed
      cases handed
      exact ⟨string, rfl⟩

/-- The promise about a serialisation that fails with an exception: each layer passes the
exception on in its own way, and the marker for it is never used as a value. -/
structure PassesExceptionOn (value : ScriptValue) : Prop where
  raisesExactly : ∀ answer changed,
    (conversion realm fuel (answering answers) lent value.value world).result =
      .ok (answer, changed) →
    (cmsPpValue realm fuel value.value).returned answers lent world =
      match answer with
      | .ok _ => .ok ((.undefined, Frame.initial lent), changed)
      | .error thrown => .ok ((.exception changed.next thrown.thrown.value thrown.abort,
          ⟨none, {changed.next}, lent⟩), { changed with next := changed.next + 1 })
  opToString : ∀ object thrown changed, value.value = .object object →
    serialisation realm fuel answers lent world object =
      .ok ((.error, ⟨some thrown, 0, lent⟩), changed) →
    (cmsOpToString realm fuel value.value).returned answers lent world =
      .ok ((none, ⟨some thrown, 0, lent⟩), changed)
  valueToString : ∀ object thrown changed, value.value = .object object →
    serialisation realm fuel answers lent world object =
      .ok ((.error, ⟨some thrown, 0, lent⟩), changed) →
    (cmsValueToString realm fuel value.value).returned answers lent world =
      .ok ((.exception changed.next thrown.thrown.value thrown.abort,
        ⟨none, {changed.next}, lent⟩), { changed with next := changed.next + 1 })
  handlerPp : ∀ object thrown changed index rest, value.value = .object object →
    serialisation realm fuel answers lent world object =
      .ok ((.error, ⟨some thrown, 0, lent⟩), changed) →
    (handlePrint (cmsPpValue realm fuel) index (value :: rest)).returned answers lent world =
      .ok ((.exception changed.next thrown.thrown.value thrown.abort,
        ⟨none, {changed.next}, lent⟩), { changed with next := changed.next + 1 })
  markerNotHandedOn : ∀ object result frame changed, value.value = .object object →
    (handedOn realm fuel object).returned answers lent world = .ok ((result, frame), changed) →
      result ≠ .error
  noAssertion : (cmsPpValue realm fuel value.value).returned answers lent world ≠
    .error .assertion

theorem passesExceptionOn_iff (value : ScriptValue) (others : Multiset Pointer) :
    PassesExceptionOn realm fuel answers (value.value.references + others) world value ↔
      HasText realm fuel answers (value.value.references + others) world value.value := by
  have alive : (Frame.initial (value.value.references + others)).Alive value.value.references :=
    fun address mem => .inr (Multiset.mem_of_le (Multiset.le_add_right _ _) mem)
  constructor
  · intro passes
    exact (returned_ne_assertion_iff realm fuel answers _ world alive).mp passes.noAssertion
  · intro hasText
    have notFailed : ∀ object thrown changed, value.value = .object object →
        serialisation realm fuel answers (value.value.references + others) world object ≠
          .ok ((.error, ⟨some thrown, 0, value.value.references + others⟩), changed) := by
      intro object thrown changed isObject ended
      rcases hasText object _ _ changed isObject ended with ⟨string, isString⟩
      cases isString
    refine ⟨?_, ?_, ?_, ?_, ?_, (returned_ne_assertion_iff realm fuel answers _ world alive).mpr
      hasText⟩
    · intro answer changed converted
      rw [returned, observe_cmsPpValue realm fuel id answers.nested value.specDefined alive,
        Outcome.result_bind, converted]
      rcases answer with thrown | string
      · have notObject : value.value.isObject = false := by
          rw [← Bool.not_eq_true]
          intro isObject
          exact (hasText_iff realm fuel answers _ world isObject alive).mp hasText _ _ converted
        simp [Except.bind, afterConversion, notObject]
      · rfl
    · intro object thrown changed isObject ended
      exact absurd ended (notFailed object thrown changed isObject)
    · intro object thrown changed isObject ended
      exact absurd ended (notFailed object thrown changed isObject)
    · intro object thrown changed index rest isObject ended
      exact absurd ended (notFailed object thrown changed isObject)
    · intro object result frame changed isObject handed
      have objectHasText : HasText realm fuel answers (value.value.references + others) world
          (.object object) := fun other result frame changed same =>
        hasText other result frame changed (isObject.trans same)
      rcases returned_handedOn realm fuel answers _ world objectHasText handed with ⟨string, rfl⟩
      rintro ⟨⟩

/-- Printing an object whose property refers to the object itself fails an assertion. -/
theorem cyclicObject_not_passedOn :
    ¬PassesExceptionOn (sampleRealm sampleObject false) 4 noNestedCalls {1} ⟨(), 10⟩
      sampleObject := by
  intro passes
  exact passes.noAssertion (by decide +kernel)

/-- The promise about an object without a JSON form: a syntax error that the script can
catch. `NULL` and a pending exception come together, and no exception reference is used as
a value. -/
structure ThrowsSyntaxError (value : ScriptValue) : Prop where
  valueToString : ∀ object frame changed, value.value = .object object →
    serialisation realm fuel answers lent world object = .ok ((.undefined, frame), changed) →
    ∃ exception error after,
      (cmsValueToString realm fuel value.value).returned answers lent world =
        .ok ((.exception exception (.object ⟨error, some ⟨.syntaxError, .jsonStringifyError⟩⟩)
          false, ⟨none, {exception}, lent⟩), after)
  handlerPp : ∀ object frame changed index rest, value.value = .object object →
    serialisation realm fuel answers lent world object = .ok ((.undefined, frame), changed) →
    ∃ exception error after,
      (handlePrint (cmsPpValue realm fuel) index (value :: rest)).returned answers lent world =
        .ok ((.exception exception (.object ⟨error, some ⟨.syntaxError, .jsonStringifyError⟩⟩)
          false, ⟨none, {exception}, lent⟩), after)
  noAssertion : (cmsOpToString realm fuel value.value).returned answers lent world ≠
    .error .assertion
  nullIffPending : ∀ string frame changed,
    (cmsOpToString realm fuel value.value).returned answers lent world =
      .ok ((string, frame), changed) → (string = none ↔ frame.pending ≠ none)
  exceptionNotHandedOn : ∀ object result frame changed, value.value = .object object →
    (handedOn realm fuel object).returned answers lent world = .ok ((result, frame), changed) →
      ∀ address inner abort, result ≠ .exception address inner abort

/-- The conversion of a value that is no object keeps the convention for strings. -/
theorem cmsOpToString_ends_of_not_object {value : ScriptValue}
    (notObject : value.value.isObject = false)
    (alive : (Frame.initial lent).Alive value.value.references) :
    ((cmsOpToString realm fuel value.value).observe (answering answers) (Frame.initial lent)
      world).Ends (.outOfFuel = ·) fun answer => ReturnsString 0 lent answer.1.1 answer.1.2 := by
  rw [cmsOpToString_of_not_object realm fuel notObject]
  have settles := settles_ecmaOpToStringPrimitive realm 0 lent world value.specDefined notObject
    alive
  exact ensured_of_observe (settles.ensures.mono fun _ _ converts => converts.2.1) answers

theorem throwsSyntaxError_iff (value : ScriptValue) (others : Multiset Pointer) :
    ThrowsSyntaxError realm fuel answers (value.value.references + others) world value ↔
      HasText realm fuel answers (value.value.references + others) world value.value := by
  have alive : (Frame.initial (value.value.references + others)).Alive value.value.references :=
    fun address mem => .inr (Multiset.mem_of_le (Multiset.le_add_right _ _) mem)
  by_cases isObject : value.value.isObject = true
  · rcases value with ⟨value, valid⟩
    rcases EcmaValue.exists_object isObject with ⟨object, rfl⟩
    have converted := returned_cmsOpToString realm fuel answers world alive
    have ends := serialisation_ends realm fuel answers world alive
    constructor
    · intro throws
      have noAssertion := throws.noAssertion
      rw [converted] at noAssertion
      exact (hasText_iff_bind realm fuel answers world alive _).mpr noAssertion
    · intro hasText
      have notFailed : ∀ other frame changed, EcmaValue.object object = .object other →
          serialisation realm fuel answers ((EcmaValue.object object).references + others) world
            other ≠ .ok ((.undefined, frame), changed) := by
        intro other frame changed same ended
        rcases hasText other _ frame changed same ended with ⟨string, isString⟩
        cases isString
      refine ⟨?_, ?_, ?_, ?_, ?_⟩
      · intro other frame changed same ended
        exact absurd ended (notFailed other frame changed same)
      · intro other frame changed index rest same ended
        exact absurd ended (notFailed other frame changed same)
      · rw [converted]
        exact (hasText_iff_bind realm fuel answers world alive _).mp hasText
      · intro string frame changed returned
        rw [converted] at returned
        cases ended : serialisation realm fuel answers
            ((EcmaValue.object object).references + others) world object with
        | error reason =>
            rw [ended] at returned
            cases returned
        | ok answer =>
            rcases answer with ⟨⟨result, after⟩, left⟩
            rcases hasText object result after left rfl ended with ⟨text, rfl⟩
            have returns : StringifyReturns 0 _ (.string text) after := ends.of_ok ended
            rw [ended] at returned
            cases returned
            rcases returns with ⟨isError, _⟩ | ⟨isUndefined, _⟩ | ⟨_, _, rfl⟩
            · cases isError
            · cases isUndefined
            · exact iff_of_false nofun (by simp)
      · intro other result frame changed same handed
        cases same
        rcases returned_handedOn realm fuel answers _ world hasText handed with ⟨string, rfl⟩
        exact nofun
  · have notObject : value.value.isObject = false := by simpa using isObject
    have different : ∀ object, value.value ≠ .object object := by
      intro object same
      rw [same] at notObject
      cases notObject
    have ends := cmsOpToString_ends_of_not_object realm fuel answers _ world notObject alive
    refine iff_of_true ⟨?_, ?_, ?_, ?_, ?_⟩ ?_
    · intro object frame changed same
      exact absurd same (different object)
    · intro object frame changed index rest same
      exact absurd same (different object)
    · intro failed
      have isFuel := ends.of_error failed
      cases isFuel
    · intro string frame changed returned
      exact returnsString_none_iff (ends.of_ok returned)
    · intro object result frame changed same
      exact absurd same (different object)
    · intro object result frame changed same
      exact absurd same (different object)

/-- A callable object has no JSON form, and its conversion fails an assertion as well. -/
theorem callableObject_not_thrown :
    ¬ThrowsSyntaxError (sampleRealm sampleObject true) 4 noNestedCalls {1} ⟨(), 10⟩
      sampleObject := by
  intro throws
  exact throws.noAssertion (by decide +kernel)

end Native

end Cmsframe
