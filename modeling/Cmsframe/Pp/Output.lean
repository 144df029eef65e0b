import Cmsframe.Engine.Environment
import Cmsframe.Pp.Conversion

/-!
# The output of a call

Run against an environment, a call of `pp` is described argument by argument: a
separator, the conversion with whatever user code prints meanwhile, and the text of
the argument, in buffers that join to `printedText`. `conversion` is the part in
which user code can run, and no buffer is open during it.
-/

namespace Cmsframe

open Interaction
open Unicode (CodeUnit)

/-- The references a caller keeps for a call with these arguments. -/
def argumentReferences (arguments : List ScriptValue) : Multiset Pointer :=
  (arguments.map fun argument => argument.value.references).sum

theorem alive_of_mem {arguments : List ScriptValue} {argument : ScriptValue}
    (mem : argument ∈ arguments) :
    (Frame.initial (argumentReferences arguments)).Alive argument.value.references := by
  intro address inArgument
  right
  exact Multiset.mem_of_le
    (le_sum_map (fun argument : ScriptValue => argument.value.references) mem) inArgument

theorem cmsPrintBufferSize_pos : 0 < Native.cmsPrintBufferSize := by decide

/-- The buffers a string is printed in. -/
def cmsBuffers (units : List CodeUnit) : List (List UInt8) :=
  Native.stringBuffers cmsPrintBufferSize_pos units

theorem cmsBuffers_flatten (units : List CodeUnit) :
    (cmsBuffers units).flatten = printedText units :=
  Native.stringBuffers_flatten _ units

namespace Native

variable {Script Token : Type} (realm : Realm Script) (fuel : ℕ)
variable (emit : List UInt8 → Token) (nested : NestedCall Script Token)

theorem observe_printAll (buffers : List (List UInt8)) (frame : Frame) (world : World Script) :
    (printAll buffers).observe (environment emit nested) frame world =
      ⟨buffers.map emit, .ok (((), frame), world)⟩ := by
  induction buffers with
  | nil => rfl
  | cons buffer buffers ih => simp [printAll, ih, Outcome.prepend]

/-- A string is printed in one piece: whatever the buffers look like, no user code runs
between them. -/
theorem observe_printString {size : ℕ} (positive : 0 < size) (string : EcmaString)
    (pending : Option Thrown) (held lent : Multiset Pointer) (world : World Script) :
    (printString size (storeValue size) (.string string)).observe (environment emit nested)
        ⟨pending, held + string.references, lent⟩ world =
      ⟨(stringBuffers positive string.units).map emit,
        .ok ((.undefined, ⟨pending, held, lent⟩), world)⟩ := by
  have owned : (⟨pending, held + string.references, lent⟩ : Frame).Alive string.references :=
    Frame.Alive.of_le_held (Multiset.le_add_left _ _)
  have touched := observe_of_run_done emit nested _ world (run_touch _ world owned)
  have released := observe_of_run_done emit nested _ world
    (run_release_acquired world pending held string.references lent)
  simp only [printString_eq positive, Routine.observe_bind, touched, observe_printAll, released,
    observe_jerryPortPrintBuffer, Outcome.bind_pure, Outcome.bind_ok, Routine.observe_pure]
  simp [Outcome.prepend, Outcome.pure, stringBuffers]

/-- The outcome of converting one argument, seen from the call. -/
def conversion (handler : Program.Handler Token Fault Effect Effect.Reply (World Script))
    (lent : Multiset Pointer) (value : EcmaValue) (world : World Script) :
    Outcome Token Fault (Except Thrown EcmaString × World Script) :=
  ((convertArgument realm fuel value).observe handler ⟨none, 0, lent⟩ world).bind fun answer =>
    match answer.1.1, answer.1.2.pending with
    | some string, _ => .pure (.ok string, answer.2)
    | none, some thrown => .pure (.error thrown, answer.2)
    | none, none => .fail .assertion

/-- The conversion of an object, by the ways its serialisation can end. -/
theorem conversion_object {object : EcmaObject} {lent : Multiset Pointer}
    (alive : (Frame.initial lent).Alive {object.address}) (world : World Script) :
    conversion realm fuel (environment emit nested) lent (.object object) world =
      ((ecmaBuiltinJsonStringifyNoOpts realm fuel (.object object)).observe
        (environment emit nested) (Frame.initial lent) world).bind fun answer =>
          match answer.1.1, answer.1.2.pending with
          | .string string, _ => .pure (.ok string, answer.2)
          | .simple .undefined, _ =>
              .pure (.error (nativeError .syntaxError .jsonStringifyError answer.2.next),
                { answer.2 with next := answer.2.next + 1 })
          | _, some thrown => .pure (.error thrown, answer.2)
          | _, none => .fail .assertion := by
  have ensured : ((ecmaBuiltinJsonStringifyNoOpts realm fuel (.object object)).run
      (Frame.initial lent) world).Ensures (fun _ => True) fun answer _ =>
        StringifyReturns 0 lent answer.1 answer.2 :=
    ensures_ecmaBuiltinJsonStringifyNoOpts realm world trivial fuel rfl alive
  simp only [conversion, convertArgument, Routine.observe_bind, Outcome.bind_assoc]
  apply Outcome.bind_congr
  rintro ⟨⟨result, frame⟩, changed⟩ ended
  have returns : StringifyReturns 0 lent result frame := ensured.of_interpret ended
  rcases returns with ⟨rfl, thrown, rfl⟩ | ⟨rfl, rfl⟩ | ⟨string, rfl, rfl⟩
  · rfl
  · have raised := observe_of_run_done emit nested _ changed
      (run_ecmaRaiseStandardError changed 0 lent .syntaxError .jsonStringifyError)
    simp only [if_true, Routine.observe_bind, raised, Outcome.bind_pure, Routine.observe_pure]
  · rfl

/-- How the code goes on after a conversion. -/
def afterConversion (lent : Multiset Pointer) (value : EcmaValue) :
    Except Thrown EcmaString × World Script →
      Outcome Token Fault ((EcmaValue × Frame) × World Script)
  | (.ok string, world) =>
      ⟨(cmsBuffers string.units).map emit, .ok ((.undefined, ⟨none, 0, lent⟩), world)⟩
  | (.error thrown, world) =>
      if value.isObject then
        .fail .assertion
      else
        .pure ((.exception world.next thrown.thrown.value thrown.abort,
          ⟨none, {world.next}, lent⟩), { world with next := world.next + 1 })

theorem observe_cmsPpValue {value : EcmaValue} (valid : value.specDefined = true)
    {lent : Multiset Pointer} (alive : (⟨none, 0, lent⟩ : Frame).Alive value.references)
    (world : World Script) :
    (cmsPpValue realm fuel value).observe (environment emit nested) ⟨none, 0, lent⟩ world =
      (conversion realm fuel (environment emit nested) lent value world).bind
        (afterConversion emit lent value) := by
  have ensured : ((convertArgument realm fuel value).run ⟨none, 0, lent⟩ world).Ensures
      (fun _ => True) fun answer _ => ReturnsString 0 lent answer.1 answer.2 :=
    ensures_convertArgument realm fuel world trivial valid alive
  rw [Routine.observe, run_cmsPpValue realm fuel world valid alive, ← Routine.observe,
    Routine.observe_bind, conversion, Outcome.bind_assoc]
  apply Outcome.bind_congr
  rintro ⟨⟨string, frame⟩, changed⟩ ended
  have returns : ReturnsString 0 lent string frame := ensured.of_interpret ended
  rcases returns with ⟨rfl, thrown, rfl⟩ | ⟨result, rfl, rfl⟩
  · simp only [Outcome.bind_pure, printConverted, afterConversion]
    split_ifs with isObject
    · rfl
    · have created := run_ecmaCreateExceptionFromContext changed 0 lent thrown
      rw [zero_add] at created
      exact observe_of_run_done emit nested _ changed created
  · simp only [Outcome.bind_pure, printConverted, afterConversion]
    exact observe_printString emit nested (by decide) result none 0 lent changed

/-- What is printed in front of the argument with the given index. -/
def separator (index : ℕ) : List Token :=
  if 0 < index then [emit (asciiBytes " ")] else []

theorem observe_handlePrint_nil (print : EcmaValue → Native Script EcmaValue) (index : ℕ)
    (frame : Frame) (world : World Script) :
    (handlePrint print index []).observe (environment emit nested) frame world =
      ⟨[emit (asciiBytes "\n")], .ok ((.undefined, frame), world)⟩ := rfl

/-- One argument of `cms_handler_pp` and what follows it. -/
theorem observe_cmsPpValue_bind (index : ℕ) {argument : ScriptValue}
    (arguments : List ScriptValue) {lent : Multiset Pointer}
    (alive : (⟨none, 0, lent⟩ : Frame).Alive argument.value.references) (world : World Script) :
    (do
      let result ← cmsPpValue realm fuel argument.value
      match result with
      | .exception .. => return result
      | _ => handlePrint (cmsPpValue realm fuel) (index + 1) arguments).observe
        (environment emit nested) ⟨none, 0, lent⟩ world =
      (conversion realm fuel (environment emit nested) lent argument.value world).bind
        fun answer =>
          match answer with
          | (.ok string, changed) =>
              ((handlePrint (cmsPpValue realm fuel) (index + 1) arguments).observe
                (environment emit nested) ⟨none, 0, lent⟩ changed).prepend
                  ((cmsBuffers string.units).map emit)
          | (.error thrown, changed) =>
              afterConversion emit lent argument.value (.error thrown, changed) := by
  rw [Routine.observe_bind, observe_cmsPpValue realm fuel emit nested argument.specDefined alive,
    Outcome.bind_assoc]
  congr 1
  funext answer
  rcases answer with ⟨thrown | string, changed⟩
  · simp only [afterConversion]
    split_ifs <;> rfl
  · simp only [afterConversion, Outcome.bind_ok]

/-- One turn of the loop of `cms_handler_pp`. -/
theorem observe_handlePrint_cons (index : ℕ) {argument : ScriptValue}
    (arguments : List ScriptValue) {lent : Multiset Pointer}
    (alive : (⟨none, 0, lent⟩ : Frame).Alive argument.value.references) (world : World Script) :
    (handlePrint (cmsPpValue realm fuel) index (argument :: arguments)).observe
        (environment emit nested) ⟨none, 0, lent⟩ world =
      ((conversion realm fuel (environment emit nested) lent argument.value world).bind
        fun answer =>
          match answer with
          | (.ok string, changed) =>
              ((handlePrint (cmsPpValue realm fuel) (index + 1) arguments).observe
                (environment emit nested) ⟨none, 0, lent⟩ changed).prepend
                  ((cmsBuffers string.units).map emit)
          | (.error thrown, changed) =>
              afterConversion emit lent argument.value (.error thrown, changed)).prepend
        (separator emit index) := by
  rw [← observe_cmsPpValue_bind, handlePrint, separator]
  swap
  · exact alive
  split_ifs
  · exact Routine.observe_bind _ _ _ _ _
  · rfl

end Native

end Cmsframe
