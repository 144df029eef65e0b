import Cmsframe.Library.Simulation
import Cmsframe.Pp.Handler

/-!
# Nested calls

User code that runs during a conversion can call `pp` again. A finite run of nested
calls is a tree, and its output is meant to be the text of the tree, read from left to
right. `callTree` computes the tree from the conversions alone, while `runPp` runs
the code, with every nested call answered by the code again. The two are compared by
a simulation: the conversions see environments that agree, so they behave alike, and
the loop of `cms_handler_pp` adds what the tree says.
-/

namespace Cmsframe

open Interaction
open Unicode (CodeUnit)

mutual

/-- One call of `pp`: what happened argument by argument, up to the newline or to the first
argument that could not be converted. -/
inductive PpCall where
  | finished
  | printed (argument : ScriptValue) (during : List Printed) (text : List CodeUnit) (rest : PpCall)
  | failed (argument : ScriptValue) (during : List Printed)

/-- What user code printed during a conversion. -/
inductive Printed where
  | bytes (buffer : List UInt8)
  | call (tree : PpCall)

end

mutual

/-- The bytes of a call, from the argument with the given index on. -/
def PpCall.text (index : ℕ) : PpCall → List UInt8
  | .finished => asciiBytes "\n"
  | .printed _ during text rest =>
      (Native.separator id index).flatten ++ Printed.textAll during ++ printedText text ++
        rest.text (index + 1)
  | .failed _ during => (Native.separator id index).flatten ++ Printed.textAll during

/-- The bytes of one thing printed during a conversion. -/
def Printed.text : Printed → List UInt8
  | .bytes buffer => buffer
  | .call tree => tree.text 0

/-- The bytes of everything printed during a conversion. -/
def Printed.textAll : List Printed → List UInt8
  | [] => []
  | first :: rest => first.text ++ Printed.textAll rest

end

mutual

/-- No call in the tree fails at an object. -/
def PpCall.ObjectsConvert : PpCall → Prop
  | .finished => True
  | .printed _ during _ rest => Printed.ObjectsConvertAll during ∧ rest.ObjectsConvert
  | .failed argument during =>
      argument.value.isObject = false ∧ Printed.ObjectsConvertAll during

def Printed.ObjectsConvert : Printed → Prop
  | .bytes _ => True
  | .call tree => tree.ObjectsConvert

def Printed.ObjectsConvertAll : List Printed → Prop
  | [] => True
  | first :: rest => first.ObjectsConvert ∧ Printed.ObjectsConvertAll rest

end

theorem Printed.textAll_eq (events : List Printed) : textAll events = events.flatMap text := by
  induction events with
  | nil => simp [textAll]
  | cons first rest ih => simp [textAll, ih]

theorem Printed.objectsConvertAll_iff (events : List Printed) :
    ObjectsConvertAll events ↔ ∀ event ∈ events, event.ObjectsConvert := by
  induction events with
  | nil => simp [ObjectsConvertAll]
  | cons first rest ih => simp [ObjectsConvertAll, ih]

/-- What the calling script sees of a returned value: an exception reference is a throw. -/
def replyOf : EcmaValue → Except Fault (Except Thrown ScriptValue)
  | .exception _ value abort =>
      if valid : value.specDefined = true then .ok (.error ⟨⟨value, valid⟩, abort⟩)
      else .error .assertion
  | value =>
      if valid : value.specDefined = true then .ok (.ok ⟨value, valid⟩) else .error .assertion

namespace Native

variable {Script : Type} (realm : Realm Script) (fuel : ℕ)

/-- The tree of a call with these arguments, what the script sees of it, and the world left
behind. A caught exception leaves the cell of its reference behind it. -/
def callTree (handler : Program.Handler Printed Fault Effect Effect.Reply (World Script))
    (lent : Multiset Pointer) :
    List ScriptValue → World Script →
      Except Fault (PpCall × Except Thrown ScriptValue × World Script)
  | [], world => .ok (.finished, .ok .undefined, world)
  | argument :: arguments, world =>
      let converted := conversion realm fuel handler lent argument.value world
      match converted.result with
      | .error reason => .error reason
      | .ok (.error thrown, changed) =>
          .ok (.failed argument converted.output, .error thrown,
            { changed with next := changed.next + 1 })
      | .ok (.ok string, changed) =>
          (callTree handler lent arguments changed).map fun rest =>
            (.printed argument converted.output string.units rest.1, rest.2)

/-- Nested calls as trees; `depth` bounds the nesting. -/
def ppTree : ℕ → NestedCall Script Printed
  | 0 => fun _ _ => .fail .outOfFuel
  | depth + 1 => fun arguments world =>
      match callTree realm fuel (environment .bytes (ppTree depth)) (argumentReferences arguments)
        arguments world with
      | .error reason => .fail reason
      | .ok (tree, reply, changed) => ⟨[.call tree], .ok (reply, changed)⟩

/-- The tree of a call that came back. -/
def treeOf {α : Type} (outcome : Outcome Printed Fault α) : PpCall :=
  match outcome.output with
  | .call tree :: _ => tree
  | _ => .finished

/-- Nested calls as the code runs them. -/
def runPp : ℕ → NestedCall Script (List UInt8)
  | 0 => fun _ _ => .fail .outOfFuel
  | depth + 1 => fun arguments world =>
      ((cmsHandlerPp realm fuel arguments).observe (environment id (runPp depth))
        (Frame.initial (argumentReferences arguments)) world).bind fun answer =>
          match replyOf answer.1.1 with
          | .error reason => .fail reason
          | .ok reply => .pure (reply, answer.2)

variable {realm fuel}

theorem ppTree_of_ok {depth : ℕ} {arguments : List ScriptValue} {world final : World Script}
    {reply : Except Thrown ScriptValue}
    (finite : (ppTree realm fuel depth arguments world).result = .ok (reply, final)) :
    ppTree realm fuel depth arguments world =
      ⟨[.call (treeOf (ppTree realm fuel depth arguments world))], .ok (reply, final)⟩ := by
  cases depth with
  | zero => cases finite
  | succ depth =>
      simp only [ppTree] at finite ⊢
      cases ended : callTree realm fuel (environment .bytes (ppTree realm fuel depth))
          (argumentReferences arguments) arguments world with
      | error reason =>
          rw [ended] at finite
          cases finite
      | ok answer =>
          rw [ended] at finite
          cases finite
          rfl

/-- The relation between the code's run and the tree. -/
abbrev Follows {α : Type} : Outcome (List UInt8) Fault α → Outcome Printed Fault α → Prop :=
  Outcome.Unfolds Printed.ObjectsConvert Printed.text .assertion

variable {nested : NestedCall Script (List UInt8)} {trees : NestedCall Script Printed}

theorem environment_follows (agree : ∀ arguments world,
      Follows (nested arguments world) (trees arguments world)) (effect : Effect)
    (world : World Script) :
    Follows (environment id nested effect world) (environment .bytes trees effect world) := by
  cases effect with
  | pp arguments => exact agree arguments world
  | print buffer =>
      rintro _ ⟨rfl⟩
      constructor
      · intro _
        exact ⟨rfl, by simp [environment, Printed.text]⟩
      · rintro ⟨event, mem, notSurvived⟩
        simp only [environment, List.mem_singleton] at mem
        subst mem
        exact absurd trivial notSurvived

theorem conversion_follows (agree : ∀ arguments world,
      Follows (nested arguments world) (trees arguments world)) (lent : Multiset Pointer)
    (value : EcmaValue) (world : World Script) :
    Follows (conversion realm fuel (environment id nested) lent value world)
      (conversion realm fuel (environment .bytes trees) lent value world) := by
  have converted : Follows _ _ :=
    Program.interpret_unfolds (environment_follows agree)
      ((convertArgument realm fuel value).run ⟨none, 0, lent⟩ world)
  apply converted.bind
  rintro ⟨⟨string, frame⟩, changed⟩
  rcases string with _ | string
  · rcases frame with ⟨_ | thrown, held, lent⟩
    · exact Outcome.unfolds_fail _ _
    · exact Outcome.unfolds_pure _
  · exact Outcome.unfolds_pure _

/-- Where all objects of a part convert, the code ends it with the same answer and has written
its text; otherwise the code stops in it at the assertion. -/
theorem Follows.ends {α : Type} {concrete : Outcome (List UInt8) Fault α} {events : List Printed}
    {answer : α} (follows : Follows concrete ⟨events, .ok answer⟩) :
    (Printed.ObjectsConvertAll events → ∃ during,
      concrete = ⟨during, .ok answer⟩ ∧ during.flatten = Printed.textAll events) ∧
    (¬Printed.ObjectsConvertAll events → concrete.result = .error .assertion) := by
  rcases follows answer rfl with ⟨survives, stops⟩
  rw [Printed.objectsConvertAll_iff, Printed.textAll_eq]
  constructor
  · intro converts
    rcases concrete with ⟨during, ended⟩
    rcases survives converts with ⟨rfl, written⟩
    exact ⟨during, rfl, written⟩
  · intro fails
    push Not at fails
    exact stops fails

/-- The loop of `cms_handler_pp` from an argument on follows the tree of the rest of the
call. -/
theorem handlePrint_follows (agree : ∀ arguments world,
      Follows (nested arguments world) (trees arguments world)) {lent : Multiset Pointer}
    {arguments : List ScriptValue}
    (alive : ∀ argument ∈ arguments, (Frame.initial lent).Alive argument.value.references)
    (index : ℕ) (world : World Script) {tree : PpCall} {reply : Except Thrown ScriptValue}
    {final : World Script}
    (finite : callTree realm fuel (environment .bytes trees) lent arguments world =
      .ok (tree, reply, final)) :
    (tree.ObjectsConvert → ∃ output value frame,
      (handlePrint (cmsPpValue realm fuel) index arguments).observe (environment id nested)
        (Frame.initial lent) world = ⟨output, .ok ((value, frame), final)⟩ ∧
      replyOf value = .ok reply ∧ output.flatten = tree.text index) ∧
    (¬tree.ObjectsConvert →
      ((handlePrint (cmsPpValue realm fuel) index arguments).observe (environment id nested)
        (Frame.initial lent) world).result = .error .assertion) := by
  induction arguments generalizing index world tree reply final with
  | nil =>
      cases finite
      constructor
      · intro _
        refine ⟨[asciiBytes "\n"], .undefined, Frame.initial lent, rfl, rfl, ?_⟩
        simp [PpCall.text]
      · intro fails
        exact absurd (by simp [PpCall.ObjectsConvert]) fails
  | cons argument arguments ih =>
      have follows : Follows (conversion realm fuel (environment id nested) lent _ world) _ :=
        conversion_follows agree lent argument.value world
      have aliveRest : ∀ other ∈ arguments, (Frame.initial lent).Alive other.value.references :=
        fun other mem => alive other (List.mem_cons_of_mem argument mem)
      rw [callTree] at finite
      rw [observe_handlePrint_cons realm fuel id nested index arguments
        (alive argument List.mem_cons_self)]
      generalize conversion realm fuel (environment .bytes trees) lent argument.value world =
        abstract at follows finite
      generalize conversion realm fuel (environment id nested) lent argument.value world =
        concrete at follows
      rcases abstract with ⟨events, reason | answer⟩
      · cases finite
      rcases follows.ends with ⟨survives, stops⟩
      rcases answer with ⟨thrown | string, changed⟩
      · cases finite
        simp only [PpCall.ObjectsConvert]
        constructor
        · rintro ⟨notObject, duringConvert⟩
          rcases survives duringConvert with ⟨during, rfl, written⟩
          refine ⟨separator id index ++ during, .exception changed.next thrown.thrown.value
            thrown.abort, ⟨none, {changed.next}, lent⟩, ?_, ?_, ?_⟩
          · simp [afterConversion, notObject, Outcome.pure, Outcome.prepend]
          · simp [replyOf, thrown.thrown.specDefined]
          · simp [PpCall.text, written]
        · intro fails
          by_cases duringConvert : Printed.ObjectsConvertAll events
          · rcases survives duringConvert with ⟨during, rfl, _⟩
            have isObject : argument.value.isObject = true := by
              by_contra notObject
              exact fails ⟨by simpa using notObject, duringConvert⟩
            rw [Outcome.result_prepend, Outcome.result_bind]
            simp [Except.bind, afterConversion, isObject]
          · rw [Outcome.result_prepend, Outcome.result_bind, stops duringConvert]
            rfl
      · cases rest : callTree realm fuel (environment .bytes trees) lent arguments changed with
        | error reason =>
            simp only [rest] at finite
            cases finite
        | ok ended =>
            rcases ended with ⟨restTree, restReply, restFinal⟩
            simp only [rest] at finite
            cases finite
            rcases ih aliveRest (index + 1) changed rest with ⟨restSurvives, restStops⟩
            simp only [PpCall.ObjectsConvert]
            constructor
            · rintro ⟨duringConvert, restConvert⟩
              rcases survives duringConvert with ⟨during, rfl, written⟩
              rcases restSurvives restConvert with ⟨output, value, frame, observed, seen, text⟩
              refine ⟨separator id index ++ (during ++ (cmsBuffers string.units ++ output)), value,
                frame, ?_, seen, ?_⟩
              · simp [observed, Outcome.prepend]
              · simp [PpCall.text, written, text, cmsBuffers_flatten]
            · intro fails
              by_cases duringConvert : Printed.ObjectsConvertAll events
              · rcases survives duringConvert with ⟨during, rfl, _⟩
                rw [Outcome.result_prepend, Outcome.result_bind]
                exact restStops fun restConvert => fails ⟨duringConvert, restConvert⟩
              · rw [Outcome.result_prepend, Outcome.result_bind, stops duringConvert]
                rfl

/-- At every depth, the code follows the tree. -/
theorem runPp_follows (depth : ℕ) (arguments : List ScriptValue) (world : World Script) :
    Follows (runPp realm fuel depth arguments world) (ppTree realm fuel depth arguments world) := by
  induction depth generalizing arguments world with
  | zero => exact Outcome.unfolds_fail _ _
  | succ depth ih =>
      simp only [runPp, ppTree]
      cases finite : callTree realm fuel (environment .bytes (ppTree realm fuel depth))
          (argumentReferences arguments) arguments world with
      | error reason => exact Outcome.unfolds_fail _ _
      | ok ended =>
          rcases ended with ⟨tree, reply, final⟩
          rcases handlePrint_follows ih (fun argument mem => alive_of_mem mem) 0 world finite
            with ⟨survives, stops⟩
          rintro _ ⟨rfl⟩
          constructor
          · intro allConvert
            have converts : tree.ObjectsConvert := by
              simpa [Printed.ObjectsConvert] using allConvert
            rcases survives converts with ⟨output, value, frame, observed, seen, text⟩
            rw [cmsHandlerPp, observed]
            simp [seen, text, Outcome.pure, Outcome.prepend, Printed.text]
          · rintro ⟨event, mem, fails⟩
            simp only [List.mem_singleton] at mem
            subst mem
            rw [cmsHandlerPp, Outcome.result_bind,
              stops (by simpa [Printed.ObjectsConvert] using fails)]
            rfl

/-- For every finite tree of calls, the bytes on standard output are the text of the tree
and the script sees what the tree says, exactly if no call in the tree fails at an object. -/
theorem runPp_text_iff {depth : ℕ} {arguments : List ScriptValue} {world final : World Script}
    {tree : PpCall} {reply : Except Thrown ScriptValue}
    (finite : ppTree realm fuel depth arguments world = ⟨[.call tree], .ok (reply, final)⟩) :
    ((runPp realm fuel depth arguments world).result = .ok (reply, final) ∧
      (runPp realm fuel depth arguments world).output.flatten = tree.text 0) ↔
        tree.ObjectsConvert := by
  have follows : Follows (runPp realm fuel depth arguments world) _ :=
    runPp_follows depth arguments world
  rw [finite] at follows
  rcases follows _ rfl with ⟨survives, stops⟩
  constructor
  · rintro ⟨result, _⟩
    by_contra fails
    rw [stops ⟨.call tree, List.mem_singleton_self _, by simpa [Printed.ObjectsConvert] using fails⟩]
      at result
    cases result
  · intro converts
    have kept := survives (by simpa [Printed.ObjectsConvert] using converts)
    simpa [Printed.text] using kept

/-- An object whose `toJSON` calls `pp` on the given arguments before the object is serialised
as usual. A second object is callable. -/
def nestingRealm (arguments : List ScriptValue) : Realm Unit :=
  { sampleRealm ⟨.integer 5, rfl⟩ false with
    get := fun object key _ world =>
      if object.address = 1 ∧ key = .magic (magicText "toJSON") then
        .perform (.pp arguments) world fun _ changed => .done (.ok .undefined) changed
      else if key = .magic (magicText "a") then .done (.ok ⟨.integer 5, rfl⟩) world
      else .done (.ok .undefined) world
    isCallable := fun _ object => object.address = 2 }

theorem nestedCall_text :
    (treeOf (ppTree (nestingRealm [⟨.simple .null, rfl⟩]) 4 2 [sampleObject] ⟨(), 10⟩)).text 0 =
        asciiBytes "null\n\x7b\"a\":5\x7d\n" ∧
      (((runPp (nestingRealm [⟨.simple .null, rfl⟩]) 4 2 [sampleObject] ⟨(), 10⟩).result =
          .ok (.ok ⟨.undefined, rfl⟩, ⟨(), 12⟩) ∧
        (runPp (nestingRealm [⟨.simple .null, rfl⟩]) 4 2 [sampleObject] ⟨(), 10⟩).output.flatten =
          (treeOf (ppTree (nestingRealm [⟨.simple .null, rfl⟩]) 4 2 [sampleObject] ⟨(), 10⟩)).text
            0) ↔
      (treeOf (ppTree (nestingRealm [⟨.simple .null, rfl⟩]) 4 2 [sampleObject]
        ⟨(), 10⟩)).ObjectsConvert) :=
  ⟨by decide +kernel, runPp_text_iff (ppTree_of_ok (by decide +kernel))⟩

/-- A nested call that fails at a callable object ends the enclosing call as well. -/
theorem nestedFailure_lost :
    (ppTree (nestingRealm [⟨.object ⟨2, none⟩, rfl⟩]) 4 2 [sampleObject] ⟨(), 10⟩).result =
        .ok (.ok ⟨.undefined, rfl⟩, ⟨(), 15⟩) ∧
      ¬((runPp (nestingRealm [⟨.object ⟨2, none⟩, rfl⟩]) 4 2 [sampleObject] ⟨(), 10⟩).result =
          .ok (.ok ⟨.undefined, rfl⟩, ⟨(), 15⟩) ∧
        (runPp (nestingRealm [⟨.object ⟨2, none⟩, rfl⟩]) 4 2 [sampleObject]
            ⟨(), 10⟩).output.flatten =
          (treeOf (ppTree (nestingRealm [⟨.object ⟨2, none⟩, rfl⟩]) 4 2 [sampleObject]
            ⟨(), 10⟩)).text 0) :=
  ⟨by decide +kernel, by decide +kernel⟩

end Native

end Cmsframe
