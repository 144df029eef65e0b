import Cmsframe.Json.Stringify
import Cmsframe.Plain.Cycles
import Cmsframe.Pp.Output

/-!
# `pp` and `print`

The two handlers are compared on arguments that differ only in that `print` is given the
JSON text of an object. The loops of both are related turn by turn: related arguments are
converted to the same text, or both calls end with the same exception. New cells have
other addresses in the two runs, and nothing else is different.
-/

namespace Cmsframe

open Interaction
open Unicode (CodeUnit)

namespace Native

variable {Script : Type} (realm : Realm Script) (fuel : ℕ)

/-- The conversions for `pp` and `print` differ on objects only. -/
theorem jerryValueToString_of_not_object {value : EcmaValue} (notObject : value.isObject = false) :
    jerryValueToString realm value = cmsValueToString realm fuel value := by
  have same : ecmaOpToString realm value = cmsOpToString realm fuel value := by
    rw [cmsOpToString_of_not_object realm fuel notObject]
    cases value with
    | object object => cases notObject
    | _ => rfl
  cases value with
  | exception address value abort => rfl
  | _ => exact congrArg (fun converted => converted >>= _) same

theorem jerryxPrintValue_of_not_object {value : EcmaValue} (notObject : value.isObject = false) :
    jerryxPrintValue realm value = cmsPpValue realm fuel value := by
  cases value with
  | symbol address description => rfl
  | _ =>
      simp only [jerryxPrintValue, cmsPpValue, printValue,
        jerryValueToString_of_not_object realm fuel notObject]
      rfl

/-- Without objects among the arguments, `print` and `pp` are the same. -/
theorem handlePrint_of_not_object {arguments : List ScriptValue}
    (noObject : ∀ argument ∈ arguments, argument.value.isObject = false) (index : ℕ) :
    handlePrint (jerryxPrintValue realm) index arguments =
      handlePrint (cmsPpValue realm fuel) index arguments := by
  induction arguments generalizing index with
  | nil => rfl
  | cons argument arguments ih =>
      have first := jerryxPrintValue_of_not_object realm fuel (noObject argument List.mem_cons_self)
      have rest := ih fun other mem => noObject other (List.mem_cons_of_mem argument mem)
      simp only [handlePrint, first, rest]

/-- The text printed for a value that is not an object, if it has one. -/
def printedUnits : EcmaValue → Option (List CodeUnit)
  | .symbol _ description => some (magicText "Symbol(" ++ description.getD [] ++ magicText ")")
  | value => primitiveUnits realm value

variable {Token : Type} (handler : Program.Handler Token Fault Effect Effect.Reply (World Script))

theorem conversion_of_settles {value : EcmaValue} {text : List CodeUnit} {lent : Multiset Pointer}
    {world : World Script}
    (settles : ((convertArgument realm fuel value).run (Frame.initial lent) world).Settles
      (ConvertsTo (some text) 0 lent world)) :
    ∃ string after, conversion realm fuel handler lent value world = .pure (.ok string, after) ∧
      string.units = text ∧ after.script = world.script := by
  rcases settles.eq_done with ⟨⟨string, frame⟩, after, ran, sameText, _, sameScript⟩
  simp only at sameText sameScript
  cases string with
  | none => cases sameText
  | some string =>
      refine ⟨string, after, ?_, by simpa using sameText, sameScript⟩
      have observed : (convertArgument realm fuel value).observe handler (Frame.initial lent) world =
          .pure ((some string, frame), after) := by
        rw [Routine.observe, ran, Program.interpret_done]
      rw [conversion, observed]
      rfl

/-- A value that is not an object is converted without the environment, and the only
conversion that can fail is that of a BigInt for which there is no room. -/
theorem conversion_of_not_object {value : EcmaValue} (valid : value.specDefined = true)
    (notObject : value.isObject = false) {lent : Multiset Pointer}
    (alive : (Frame.initial lent).Alive value.references) (world : World Script) :
    (∃ string after, conversion realm fuel handler lent value world = .pure (.ok string, after) ∧
      printedUnits realm value = some string.units ∧ after.script = world.script) ∨
    (∃ after, conversion realm fuel handler lent value world =
        .pure (.error (nativeError .rangeError .allocateBigintString world.next), after) ∧
      printedUnits realm value = none ∧ after.script = world.script) := by
  cases isText : printedUnits realm value with
  | some text =>
      left
      have settles : ((convertArgument realm fuel value).run (Frame.initial lent) world).Settles
          (ConvertsTo (some text) 0 lent world) := by
        cases value with
        | symbol address description =>
            cases isText
            exact settles_some 0 lent world
              (settles_ecmaGetSymbolDescriptiveString realm world description alive)
        | object object => cases notObject
        | _ =>
            rw [← isText]
            exact settles_ecmaOpToStringPrimitive realm 0 lent world valid rfl alive
      rcases conversion_of_settles realm fuel handler settles with
        ⟨string, after, converted, sameText, sameScript⟩
      exact ⟨string, after, converted, by rw [sameText], sameScript⟩
  | none =>
      right
      cases value with
      | bigint address number =>
          have noRoom : number ≠ 0 ∧ realm.bigintFits number = false := by
            simpa [printedUnits, primitiveUnits] using isText
          have touched := run_touch (Frame.initial lent) world alive
          rw [EcmaValue.references_bigint] at touched
          have converted : (convertArgument realm fuel (.bigint address number)).run
              (Frame.initial lent) world =
                .done (none, ⟨some (nativeError .rangeError .allocateBigintString world.next), 0,
                  lent⟩) { world with next := world.next + 1 } := by
            simp only [convertArgument, ecmaOpToStringPrimitive, EcmaValue.specDefined,
              Routine.run_bind, run_jerryAssert_true, Program.bind_done, touched,
              ecmaBigintToString, if_neg noRoom.1, noRoom.2, Bool.false_eq_true, if_false,
              run_ecmaRaiseStandardError, Routine.run_pure]
          refine ⟨{ world with next := world.next + 1 }, ?_, rfl, rfl⟩
          rw [conversion, Routine.observe, converted]
          rfl
      | object object => cases notObject
      | exception address inner abort => cases valid
      | simple simple =>
          cases simple with
          | undefined | null | true | false => cases isText
          | _ => cases valid
      | _ => cases isText

/-- `JSON.stringify` with one argument returns a string of the given text for an object, and
calls no user code: nothing is performed and the state of the script stays as it is. -/
def StringifiesTo (realm : Realm Script) (turns fuel : ℕ) (script : Script) (object : EcmaObject)
    (text : List CodeUnit) : Prop :=
  ∀ (held lent : Multiset Pointer) (next : Pointer),
    (⟨none, held, lent⟩ : Frame).Alive {object.address} →
      ((ecmaBuiltinJsonStringify realm turns fuel (.object object) .undefined .undefined).run
        ⟨none, held, lent⟩ ⟨script, next⟩).Settles fun answer after =>
          (∃ string, answer.1 = .string string ∧ string.units = text) ∧ after.script = script

/-- An argument of `pp` and the argument `print` is given in its place. -/
inductive Replaces (realm : Realm Script) (turns fuel : ℕ) (script : Script) :
    ScriptValue → ScriptValue → Prop where
  | kept {argument : ScriptValue} (notObject : argument.value.isObject = false) :
      Replaces realm turns fuel script argument argument
  | stringified {argument replacement : ScriptValue} {object : EcmaObject} {string : EcmaString}
      (isObject : argument.value = .object object) (isString : replacement.value = .string string)
      (stringifies : StringifiesTo realm turns fuel script object string.units) :
      Replaces realm turns fuel script argument replacement

/-- `print` is given no objects. -/
theorem not_object_of_replaces {realm : Realm Script} {turns fuel : ℕ} {script : Script}
    {arguments replaced : List ScriptValue}
    (replaces : List.Forall₂ (Replaces realm turns fuel script) arguments replaced) :
    ∀ replacement ∈ replaced, replacement.value.isObject = false := by
  induction replaces with
  | nil => nofun
  | cons first _ ih =>
      intro replacement mem
      rcases List.mem_cons.mp mem with rfl | inRest
      · cases first with
        | kept notObject => exact notObject
        | stringified _ isString _ =>
            rw [isString]
            rfl
      · exact ih replacement inRest

/-- An object is converted to its JSON text. -/
theorem conversion_of_stringifies (emit : List UInt8 → Token) (nested : NestedCall Script Token)
    {turns : ℕ} {script : Script} {object : EcmaObject} {text : List CodeUnit}
    (stringifies : StringifiesTo realm turns fuel script object text) {lent : Multiset Pointer}
    (alive : (Frame.initial lent).Alive {object.address}) (next : Pointer) :
    ∃ string after, conversion realm fuel (environment emit nested) lent (.object object)
        ⟨script, next⟩ = .pure (.ok string, ⟨script, after⟩) ∧ string.units = text := by
  have settles := stringifies 0 lent next alive
  rw [ecmaBuiltinJsonStringify_undefined] at settles
  rcases settles.eq_done with ⟨⟨_, frame⟩, ⟨_, after⟩, ran, ⟨string, rfl, isText⟩, rfl⟩
  refine ⟨string, after, ?_, isText⟩
  rw [conversion_object realm fuel emit nested alive, observe_of_run_done emit nested _ _ ran]
  rfl

/-- Related arguments are converted to the same text, or fail in the same way. -/
theorem conversion_of_replaces (emit : List UInt8 → Token) (nested : NestedCall Script Token)
    {turns : ℕ} {script : Script} {argument replacement : ScriptValue}
    (replaces : Replaces realm turns fuel script argument replacement)
    {lent lent' : Multiset Pointer} (alive : (Frame.initial lent).Alive argument.value.references)
    (alive' : (Frame.initial lent').Alive replacement.value.references) (next next' : Pointer) :
    (∃ string string' after after',
      conversion realm fuel (environment emit nested) lent argument.value ⟨script, next⟩ =
        .pure (.ok string, ⟨script, after⟩) ∧
      conversion realm fuel (environment emit nested) lent' replacement.value ⟨script, next'⟩ =
        .pure (.ok string', ⟨script, after'⟩) ∧ string.units = string'.units) ∨
    (∃ after after',
      conversion realm fuel (environment emit nested) lent argument.value ⟨script, next⟩ =
        .pure (.error (nativeError .rangeError .allocateBigintString next), ⟨script, after⟩) ∧
      conversion realm fuel (environment emit nested) lent' replacement.value ⟨script, next'⟩ =
        .pure (.error (nativeError .rangeError .allocateBigintString next'), ⟨script, after'⟩) ∧
      argument.value.isObject = false ∧ replacement.value.isObject = false) := by
  cases replaces with
  | kept notObject =>
      rcases conversion_of_not_object realm fuel (environment emit nested) argument.specDefined
          notObject alive ⟨script, next⟩ with
        ⟨string, ⟨_, after⟩, converted, text, rfl⟩ | ⟨⟨_, after⟩, converted, text, rfl⟩
      · rcases conversion_of_not_object realm fuel (environment emit nested) argument.specDefined
            notObject alive' ⟨_, next'⟩ with
          ⟨string', ⟨_, after'⟩, converted', text', rfl⟩ | ⟨_, _, text', _⟩
        · rw [text, Option.some.injEq] at text'
          exact .inl ⟨string, string', after, after', converted, converted', text'⟩
        · rw [text] at text'
          cases text'
      · rcases conversion_of_not_object realm fuel (environment emit nested) argument.specDefined
            notObject alive' ⟨_, next'⟩ with
          ⟨_, _, _, text', _⟩ | ⟨⟨_, after'⟩, converted', _, rfl⟩
        · rw [text] at text'
          cases text'
        · exact .inr ⟨after, after', converted, converted', notObject, notObject⟩
  | @stringified _ object string isObject isString stringifies =>
      left
      rw [isObject, EcmaValue.references_object] at alive
      rw [isString] at alive'
      rw [isObject, isString]
      have copied : primitiveUnits realm (.string string) = some string.units := rfl
      have settles' := settles_ecmaOpToStringPrimitive realm 0 lent' ⟨script, next'⟩
        (show (EcmaValue.string string).specDefined = true from rfl) rfl alive'
      rw [copied] at settles'
      rcases @conversion_of_settles _ realm fuel _ (environment emit nested) (.string string) _ _ _
        settles' with
        ⟨string', ⟨_, after'⟩, converted', text', rfl⟩
      rcases conversion_of_stringifies realm fuel emit nested stringifies alive next with
        ⟨written, after, converted, text⟩
      exact ⟨written, string', after, after', converted, converted', by rw [text, text']⟩

/-- On a heap of plain objects no user code is called. -/
theorem stringifiesTo_plain {heap : PlainHeap} {numbers : NumberConversion}
    {isMagicString : List CodeUnit → Bool} {turns fuel : ℕ} {root : EcmaObject} {json : Json}
    (owns : heap.Owns (.object root))
    (explored : Traversal.explore heap.successors heap.combine fuel [] (.object root) =
      .ok (some json)) :
    StringifiesTo (plainRealm numbers isMagicString) turns fuel heap root (json.units numbers) := by
  intro held lent next alive
  have stringifies := @stringifies_ecmaBuiltinJsonStringifyNoOpts numbers isMagicString _ _ _ fuel _
    owns alive next
  rw [explored] at stringifies
  rcases stringifies with ⟨string, after, ran, text⟩
  rw [ecmaBuiltinJsonStringify_undefined, ran]
  exact ⟨⟨string, rfl, text⟩, rfl⟩

end Native

/-- A returned value, up to the addresses of the cells of a new exception. -/
def EcmaValue.anonymous : EcmaValue → EcmaValue
  | .exception _ (.object target) abort => .exception 0 (.object ⟨0, target.nativeError⟩) abort
  | value => value

variable {Script Token : Type}

/-- Two calls write the same, return the same, and leave the script the same state. -/
def SameCall (left right : Outcome Token Fault ((EcmaValue × Frame) × World Script)) : Prop :=
  left.output = right.output ∧ ∃ leftAnswer rightAnswer, left.result = .ok leftAnswer ∧
    right.result = .ok rightAnswer ∧
      leftAnswer.1.1.anonymous = rightAnswer.1.1.anonymous ∧
        leftAnswer.2.script = rightAnswer.2.script

theorem SameCall.prepend {left right : Outcome Token Fault ((EcmaValue × Frame) × World Script)}
    (same : SameCall left right) (earlier : List Token) :
    SameCall (left.prepend earlier) (right.prepend earlier) := by
  rcases same with ⟨sameOutput, ends⟩
  exact ⟨by simp [sameOutput], ends⟩

namespace Native

variable (realm : Realm Script) (fuel : ℕ)

/-- The loops go on together and end together. -/
theorem sameCall_handlePrint (emit : List UInt8 → Token) (nested : NestedCall Script Token)
    {turns : ℕ} {script : Script} {arguments replaced : List ScriptValue}
    (replaces : List.Forall₂ (Replaces realm turns fuel script) arguments replaced)
    {lent lent' : Multiset Pointer}
    (alive : ∀ argument ∈ arguments, (Frame.initial lent).Alive argument.value.references)
    (alive' : ∀ argument ∈ replaced, (Frame.initial lent').Alive argument.value.references)
    (index : ℕ) (next next' : Pointer) :
    SameCall
      ((handlePrint (cmsPpValue realm fuel) index arguments).observe (environment emit nested)
        (Frame.initial lent) ⟨script, next⟩)
      ((handlePrint (cmsPpValue realm fuel) index replaced).observe (environment emit nested)
        (Frame.initial lent') ⟨script, next'⟩) := by
  induction replaces generalizing index next next' with
  | nil =>
      rw [observe_handlePrint_nil, observe_handlePrint_nil]
      exact ⟨rfl, _, _, rfl, rfl, rfl, rfl⟩
  | @cons argument replacement arguments replaced first _ ih =>
      have firstAlive := alive argument List.mem_cons_self
      have firstAlive' := alive' replacement List.mem_cons_self
      have rest := ih (fun other mem => alive other (List.mem_cons_of_mem argument mem))
        (fun other mem => alive' other (List.mem_cons_of_mem replacement mem)) (index + 1)
      rw [observe_handlePrint_cons realm fuel emit nested index arguments firstAlive,
        observe_handlePrint_cons realm fuel emit nested index replaced firstAlive']
      apply SameCall.prepend
      rcases conversion_of_replaces realm fuel emit nested first firstAlive firstAlive' next
          next' with
        ⟨string, string', after, after', converted, converted', sameText⟩ |
          ⟨after, after', converted, converted', notObject, notObject'⟩
      · simp only [converted, converted', Outcome.bind_pure, sameText]
        exact (rest after after').prepend _
      · simp only [converted, converted', Outcome.bind_pure, afterConversion, notObject,
          notObject', Bool.false_eq_true, if_false]
        exact ⟨rfl, _, _, rfl, rfl, rfl, rfl⟩

end Native

/-- `pp` agrees with `print` up to JSON: primitive values are converted by the same steps,
the serialisation that `pp` starts is that of `JSON.stringify` with one argument, and a
call of `pp` is a call of `print` in which the objects are replaced by their JSON texts. -/
theorem cmsHandlerPp_agrees (realm : Realm Script) (turns fuel : ℕ) :
    (∀ value : EcmaValue, value.isObject = false →
      Native.cmsOpToString realm fuel value = Native.ecmaOpToString realm value) ∧
    (∀ value : EcmaValue, Native.ecmaBuiltinJsonStringifyNoOpts realm fuel value =
      Native.ecmaBuiltinJsonStringify realm turns fuel value .undefined .undefined) ∧
    ∀ (script : Script) (arguments replaced : List ScriptValue),
      List.Forall₂ (Native.Replaces realm turns fuel script) arguments replaced →
        ∀ (nested : NestedCall Script (List UInt8)) (next next' : Pointer), SameCall
          ((Native.cmsHandlerPp realm fuel arguments).observe (environment id nested)
            (Frame.initial (argumentReferences arguments)) ⟨script, next⟩)
          ((Native.jerryxHandlerPrint realm replaced).observe (environment id nested)
            (Frame.initial (argumentReferences replaced)) ⟨script, next'⟩) := by
  refine ⟨?_, ?_, ?_⟩
  · intro value notObject
    rw [Native.cmsOpToString_of_not_object realm fuel notObject]
    cases value with
    | object object => cases notObject
    | _ => rfl
  · intro value
    rw [Native.ecmaBuiltinJsonStringify_undefined]
  · intro script arguments replaced replaces nested next next'
    rw [Native.cmsHandlerPp, Native.jerryxHandlerPrint,
      Native.handlePrint_of_not_object realm fuel (Native.not_object_of_replaces replaces)]
    exact Native.sameCall_handlePrint realm fuel id nested replaces
      (fun argument mem => alive_of_mem mem) (fun argument mem => alive_of_mem mem) 0 next next'

theorem cmsHandlerPp_sharedHeap :
    let text : ScriptValue :=
      ⟨.string (.heap 9 (magicText "\x7b\"list\":[\x7b\x7d,\x7b\x7d,null]\x7d")), rfl⟩
    SameCall
      ((Native.cmsHandlerPp (plainRealm noDigits fun _ => false) 5
        [⟨.integer 7, rfl⟩, ⟨.object ⟨0, none⟩, rfl⟩]).observe
          (environment id fun _ _ => .fail .assertion)
          (Frame.initial (argumentReferences [⟨.integer 7, rfl⟩, ⟨.object ⟨0, none⟩, rfl⟩]))
          ⟨sharedHeap, 4⟩)
      ((Native.jerryxHandlerPrint (plainRealm noDigits fun _ => false)
        [⟨.integer 7, rfl⟩, text]).observe (environment id fun _ _ => .fail .assertion)
          (Frame.initial (argumentReferences [⟨.integer 7, rfl⟩, text])) ⟨sharedHeap, 10⟩) := by
  intro text
  refine (cmsHandlerPp_agrees (plainRealm noDigits fun _ => false) 0 5).2.2 sharedHeap _ _ ?_ _ 4 10
  refine .cons (.kept rfl) (.cons (.stringified rfl rfl ?_) .nil)
  have owns : sharedHeap.Owns (.object ⟨0, none⟩) := PlainHeap.Owns.of_cell rfl
  have isText : (Traversal.explore sharedHeap.successors sharedHeap.combine 5 []
      (.object ⟨0, none⟩)).toOption.join.map (Json.units noDigits) =
        some (magicText "\x7b\"list\":[\x7b\x7d,\x7b\x7d,null]\x7d") := by
    decide +kernel
  cases explored : Traversal.explore sharedHeap.successors sharedHeap.combine 5 []
      (.object ⟨0, none⟩) with
  | error stop =>
      rw [explored] at isText
      cases isText
  | ok result =>
      rw [explored] at isText
      cases result with
      | none => cases isText
      | some json =>
          have sameText := Option.some.inj isText
          rw [EcmaString.units, ← sameText]
          exact Native.stringifiesTo_plain owns explored

end Cmsframe
