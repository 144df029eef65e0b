import Cmsframe.Pp.Failure

/-!
# Whole calls

`cms_handler_pp` on an argument list of any length. The first law fixes the bytes of
a call whose conversions print nothing themselves, together with the result and the
world the call leaves. The second is about references: a call releases whatever it
acquires and creates, and hands out nothing but the exception it returns. Both are
inductions over the loop, with `observe_handlePrint_cons` as the step.
-/

namespace Cmsframe

open Interaction
open Unicode (CodeUnit)

namespace Native

variable {Script : Type} (realm : Realm Script) (fuel : ℕ)

/-- The conversions of an argument list, in order, up to the first that raises an exception.
None of them prints anything. -/
inductive Conversions (handler : Program.Handler (List UInt8) Fault Effect Effect.Reply
    (World Script)) (lent : Multiset Pointer) :
    World Script → List ScriptValue → List (List CodeUnit) → Option (ScriptValue × Thrown) →
      World Script → Prop where
  | finished (world : World Script) : Conversions handler lent world [] [] none world
  | converted {world changed final : World Script} {argument : ScriptValue} {string : EcmaString}
      {arguments : List ScriptValue} {texts : List (List CodeUnit)}
      {failure : Option (ScriptValue × Thrown)}
      (first : conversion realm fuel handler lent argument.value world =
        ⟨[], .ok (.ok string, changed)⟩)
      (rest : Conversions handler lent changed arguments texts failure final) :
      Conversions handler lent world (argument :: arguments) (string.units :: texts) failure final
  | raised {world changed : World Script} {argument : ScriptValue} {thrown : Thrown}
      {arguments : List ScriptValue}
      (first : conversion realm fuel handler lent argument.value world =
        ⟨[], .ok (.error thrown, changed)⟩) :
      Conversions handler lent world (argument :: arguments) [] (some (argument, thrown)) changed

/-- The texts of the arguments from a given index on, with the separators in front. -/
def separatedText : ℕ → List (List CodeUnit) → List UInt8
  | _, [] => []
  | index, text :: texts =>
      (separator id index).flatten ++ printedText text ++ separatedText (index + 1) texts

/-- The output after the texts: the newline, or the separator in front of the argument
that could not be converted. -/
def closingText (index : ℕ) : Option (ScriptValue × Thrown) → List UInt8
  | none => asciiBytes "\n"
  | some _ => (separator id index).flatten

/-- How the code returns after the conversions. -/
def closingResult (lent : Multiset Pointer) (final : World Script) :
    Option (ScriptValue × Thrown) → Except Fault ((EcmaValue × Frame) × World Script)
  | none => .ok ((.undefined, Frame.initial lent), final)
  | some (argument, thrown) =>
      if argument.value.isObject then
        .error .assertion
      else
        .ok ((.exception final.next thrown.thrown.value thrown.abort, ⟨none, {final.next}, lent⟩),
          { final with next := final.next + 1 })

variable {realm fuel}

theorem separatedText_succ (index : ℕ) (texts : List (List CodeUnit)) :
    separatedText (index + 1) texts = texts.flatMap fun text => asciiBytes " " ++ printedText text := by
  induction texts generalizing index with
  | nil => rfl
  | cons text texts ih =>
      rw [separatedText, ih, List.flatMap_cons]
      simp [separator]

theorem intercalate_cons (gap : List UInt8) (piece : List UInt8) (pieces : List (List UInt8)) :
    List.intercalate gap (piece :: pieces) = piece ++ pieces.flatMap fun other => gap ++ other := by
  induction pieces generalizing piece with
  | nil => simp [List.intercalate]
  | cons other pieces ih =>
      have rest := ih other
      simp only [List.intercalate, List.intersperse, List.flatten_cons, List.flatMap_cons,
        List.append_assoc] at rest ⊢
      rw [rest]

theorem separatedText_zero (texts : List (List CodeUnit)) :
    separatedText 0 texts = List.intercalate (asciiBytes " ") (texts.map printedText) := by
  cases texts with
  | nil => rfl
  | cons text texts =>
      rw [separatedText, separatedText_succ, List.map_cons, intercalate_cons, List.flatMap_map]
      simp [separator]

theorem separatedText_append_separator (texts : List (List CodeUnit)) (index : ℕ) :
    separatedText index texts ++ (separator id (index + texts.length)).flatten =
      (separator id index).flatten ++
        texts.flatMap fun text => printedText text ++ asciiBytes " " := by
  induction texts generalizing index with
  | nil => simp [separatedText]
  | cons text texts ih =>
      have next := ih (index + 1)
      rw [List.length_cons, ← Nat.add_assoc, Nat.add_right_comm]
      simp only [separatedText, List.append_assoc, next, List.flatMap_cons]
      simp [separator]

theorem observe_of_conversions {nested : NestedCall Script (List UInt8)}
    {lent : Multiset Pointer} {world final : World Script} {arguments : List ScriptValue}
    {texts : List (List CodeUnit)} {failure : Option (ScriptValue × Thrown)}
    (converts : Conversions realm fuel (environment id nested) lent world arguments texts
      failure final)
    (alive : ∀ argument ∈ arguments, (Frame.initial lent).Alive argument.value.references)
    (index : ℕ) :
    ∃ output, (handlePrint (cmsPpValue realm fuel) index arguments).observe
        (environment id nested) (Frame.initial lent) world =
          ⟨output, closingResult lent final failure⟩ ∧
      output.flatten = separatedText index texts ++ closingText (index + texts.length) failure := by
  induction converts generalizing index with
  | finished world =>
      refine ⟨[asciiBytes "\n"], rfl, ?_⟩
      simp [separatedText, closingText]
  | @converted world changed final argument string arguments texts failure first rest ih =>
      rcases ih (fun other mem => alive other (List.mem_cons_of_mem argument mem)) (index + 1)
        with ⟨output, observed, text⟩
      refine ⟨separator id index ++ (cmsBuffers string.units ++ output), ?_, ?_⟩
      · rw [observe_handlePrint_cons realm fuel id nested index arguments
          (alive argument List.mem_cons_self), first]
        simp only [Outcome.bind_ok, observed]
        simp [Outcome.prepend]
      · simp only [List.flatten_append, cmsBuffers_flatten, text, separatedText, List.length_cons,
          List.append_assoc]
        rw [Nat.add_right_comm, Nat.add_assoc]
  | @raised world changed argument thrown arguments first =>
      refine ⟨separator id index, ?_, ?_⟩
      · rw [observe_handlePrint_cons realm fuel id nested index arguments
          (alive argument List.mem_cons_self), first]
        simp only [Outcome.bind_ok, afterConversion, closingResult]
        split_ifs <;> simp [Outcome.prepend, Outcome.fail, Outcome.pure]
      · simp [separatedText, closingText]

/-- The promise about the output of a call: all texts with a space between any two and a
newline at the end, or the texts up to the failure, each with a space behind it. -/
def PrintsAsPromised (lent : Multiset Pointer) (final : World Script)
    (texts : List (List CodeUnit)) (failure : Option (ScriptValue × Thrown))
    (outcome : Outcome (List UInt8) Fault ((EcmaValue × Frame) × World Script)) : Prop :=
  match failure with
  | none =>
      outcome.output.flatten =
        List.intercalate (asciiBytes " ") (texts.map printedText) ++ asciiBytes "\n" ∧
      outcome.result = .ok ((.undefined, Frame.initial lent), final)
  | some (_, thrown) =>
      outcome.output.flatten = (texts.flatMap fun text => printedText text ++ asciiBytes " ") ∧
      outcome.result = .ok ((.exception final.next thrown.thrown.value thrown.abort,
        ⟨none, {final.next}, lent⟩), { final with next := final.next + 1 })

/-- A call keeps the promise about its output and its result exactly if the argument that
cannot be converted, if there is one, is not an object. -/
theorem printsAsPromised_iff {nested : NestedCall Script (List UInt8)}
    {world final : World Script} {arguments : List ScriptValue} {texts : List (List CodeUnit)}
    {failure : Option (ScriptValue × Thrown)}
    (converts : Conversions realm fuel (environment id nested) (argumentReferences arguments)
      world arguments texts failure final) :
    PrintsAsPromised (argumentReferences arguments) final texts failure
        ((cmsHandlerPp realm fuel arguments).observe (environment id nested)
          (Frame.initial (argumentReferences arguments)) world) ↔
      ∀ argument thrown, failure = some (argument, thrown) → argument.value.isObject = false := by
  rcases observe_of_conversions converts (fun argument mem => alive_of_mem mem) 0
    with ⟨output, observed, text⟩
  rw [cmsHandlerPp, observed]
  rcases failure with _ | ⟨argument, thrown⟩
  · refine iff_of_true ⟨?_, rfl⟩ nofun
    rw [text, separatedText_zero]
    rfl
  · have written : output.flatten =
        texts.flatMap fun text => printedText text ++ asciiBytes " " := by
      have law := separatedText_append_separator texts 0
      rw [text, closingText, law]
      simp [separator]
    simp only [PrintsAsPromised, written, true_and, closingResult]
    constructor
    · rintro kept _ _ ⟨rfl⟩
      by_contra isObject
      rw [if_pos (by simpa using isObject)] at kept
      cases kept
    · intro notObject
      rw [if_neg (by simp [notObject argument thrown rfl])]

/-- A string with a NUL, a number, and a BigInt for whose digits there is no room. -/
def sampleArguments : List ScriptValue :=
  [⟨.string (.heap 1 (magicText "a\x00")), rfl⟩, ⟨.integer (-5), rfl⟩, ⟨.bigint 2 7, rfl⟩]

theorem sampleArguments_printed :
    PrintsAsPromised (argumentReferences sampleArguments) ⟨(), 12⟩
      [magicText "a\x00", magicText "-5"]
      (some (⟨.bigint 2 7, rfl⟩, nativeError .rangeError .allocateBigintString 11))
      ((cmsHandlerPp { sampleRealm ⟨.undefined, rfl⟩ false with bigintFits := fun _ => false } 4
        sampleArguments).observe (answering noNestedCalls)
          (Frame.initial (argumentReferences sampleArguments)) ⟨(), 10⟩) := by
  have first : conversion { sampleRealm ⟨.undefined, rfl⟩ false with bigintFits := fun _ => false }
      4 (answering noNestedCalls) (argumentReferences sampleArguments)
      (.string (.heap 1 (magicText "a\x00"))) ⟨(), 10⟩ =
        ⟨[], .ok (.ok (.heap 1 (magicText "a\x00")), ⟨(), 10⟩)⟩ := by
    decide +kernel
  have second : conversion { sampleRealm ⟨.undefined, rfl⟩ false with bigintFits := fun _ => false }
      4 (answering noNestedCalls) (argumentReferences sampleArguments) (.integer (-5)) ⟨(), 10⟩ =
        ⟨[], .ok (.ok (.heap 10 (magicText "-5")), ⟨(), 11⟩)⟩ := by
    decide +kernel
  have third : conversion { sampleRealm ⟨.undefined, rfl⟩ false with bigintFits := fun _ => false }
      4 (answering noNestedCalls) (argumentReferences sampleArguments) (.bigint 2 7) ⟨(), 11⟩ =
        ⟨[], .ok (.error (nativeError .rangeError .allocateBigintString 11), ⟨(), 12⟩)⟩ := by
    decide +kernel
  exact (printsAsPromised_iff (.converted first (.converted second (.raised third)))).mpr (by
    rintro _ _ ⟨rfl⟩
    rfl)

/-- With a cyclic object in the place of the BigInt, no exception comes back. -/
theorem cyclicObject_not_printed :
    Conversions (sampleRealm sampleObject false) 4 (answering noNestedCalls)
        (argumentReferences [sampleObject]) ⟨(), 10⟩ [sampleObject] []
        (some (sampleObject, nativeError .typeError .theStructureIsCyclical 11)) ⟨(), 12⟩ ∧
      ¬PrintsAsPromised (argumentReferences [sampleObject]) ⟨(), 12⟩ []
        (some (sampleObject, nativeError .typeError .theStructureIsCyclical 11))
        ((cmsHandlerPp (sampleRealm sampleObject false) 4 [sampleObject]).observe
          (answering noNestedCalls) (Frame.initial (argumentReferences [sampleObject]))
          ⟨(), 10⟩) := by
  refine ⟨.raised (by decide +kernel), ?_⟩
  rintro ⟨_, returns⟩
  have stopped : ((cmsHandlerPp (sampleRealm sampleObject false) 4 [sampleObject]).observe
      (answering noNestedCalls) (Frame.initial (argumentReferences [sampleObject]))
      ⟨(), 10⟩).result = .error .assertion := by
    decide +kernel
  rw [stopped] at returns
  cases returns

section Ownership

variable (answers : Answers Script (List UInt8)) (lent : Multiset Pointer)

/-- A call gives back what it took: it owns the reference of its result and nothing else,
and no reference was released twice or used after its release. -/
def Balanced (outcome : Outcome (List UInt8) Fault ((EcmaValue × Frame) × World Script)) : Prop :=
  outcome.Ends (.outOfFuel = ·) fun answer =>
    answer.1.2 = ⟨none, answer.1.1.references, lent⟩ ∧
      (answer.1.1 = .undefined ∨ ∃ address inner abort, answer.1.1 = .exception address inner abort)

variable (realm fuel) in
/-- Among the arguments that a call comes to, none is an object that cannot be converted. -/
def ObjectsConvert : World Script → List ScriptValue → Prop
  | _, [] => True
  | world, argument :: arguments =>
      match (conversion realm fuel (answering answers) lent argument.value world).result with
      | .ok (.ok _, changed) => ObjectsConvert changed arguments
      | .ok (.error _, _) => argument.value.isObject = false
      | .error _ => True

variable {answers lent}

theorem balanced_handlePrint_iff {arguments : List ScriptValue}
    (alive : ∀ argument ∈ arguments, (Frame.initial lent).Alive argument.value.references)
    (index : ℕ) (world : World Script) :
    Balanced lent ((handlePrint (cmsPpValue realm fuel) index arguments).observe
        (answering answers) (Frame.initial lent) world) ↔
      ObjectsConvert realm fuel answers lent world arguments := by
  induction arguments generalizing index world with
  | nil => exact iff_of_true ⟨rfl, .inl rfl⟩ trivial
  | cons argument arguments ih =>
      have ends := conversion_ends realm fuel answers lent world argument.specDefined
        (alive argument List.mem_cons_self)
      rw [observe_handlePrint_cons realm fuel id answers.nested index arguments
        (alive argument List.mem_cons_self), Balanced, Outcome.ends_prepend, Outcome.Ends,
        Outcome.result_bind, ObjectsConvert]
      cases ended : (conversion realm fuel (answering answers) lent argument.value world).result with
      | error reason => exact iff_of_true (ends.of_error ended) trivial
      | ok answer =>
          rcases answer with ⟨thrown | string, changed⟩
          · simp only [Except.bind, afterConversion]
            by_cases isObject : argument.value.isObject = true
            · simp [isObject, Outcome.fail]
            · simp [isObject, Outcome.pure]
          · exact ih (fun other mem => alive other (List.mem_cons_of_mem argument mem)) (index + 1)
              changed

/-- A call of `pp` releases every reference exactly once, whatever its arguments and the user
code run meanwhile, exactly if it comes to no object that cannot be converted. -/
theorem balanced_cmsHandlerPp_iff (realm : Realm Script) (fuel : ℕ)
    (answers : Answers Script (List UInt8)) (arguments : List ScriptValue)
    (world : World Script) :
    Balanced (argumentReferences arguments)
        ((cmsHandlerPp realm fuel arguments).observe (answering answers)
          (Frame.initial (argumentReferences arguments)) world) ↔
      ObjectsConvert realm fuel answers (argumentReferences arguments) world arguments :=
  balanced_handlePrint_iff (fun _ mem => alive_of_mem mem) 0 world

/-- The call does not come back from an object without a JSON form. -/
theorem callableObject_not_balanced :
    ¬Balanced (argumentReferences [sampleObject])
      ((cmsHandlerPp (sampleRealm sampleObject true) 4 [sampleObject]).observe
        (answering noNestedCalls) (Frame.initial (argumentReferences [sampleObject]))
        ⟨(), 10⟩) := by
  have stopped : ((cmsHandlerPp (sampleRealm sampleObject true) 4 [sampleObject]).observe
      (answering noNestedCalls) (Frame.initial (argumentReferences [sampleObject]))
      ⟨(), 10⟩).result = .error .assertion := by
    decide +kernel
  intro balanced
  have tolerated : Fault.outOfFuel = .assertion := balanced.of_error stopped
  cases tolerated

end Ownership

end Native

end Cmsframe
