import Cmsframe.Main.Trace

/-!
# What scripts and jobs do

The calls that the driver makes for a script and for a job, between the two marks of each, and
how the result follows from what comes back. `Performed` takes a record apart into scripts,
jobs, and calls that belong to neither.
-/

namespace Cmsframe

open Interaction

/-- The calls of `jerryx_source_parse_script`, when it returns. -/
inductive ParseCalls (path : CString) : List Event → Completion ScriptValue → Prop where
  | notFound (thrown : Thrown) :
      ParseCalls path
        [⟨.sourceRead path, none⟩,
          ⟨.log .error (asciiBytes "Failed to open file: " ++ path ++ asciiBytes "\n"), ()⟩,
          ⟨.throwSz .syntaxError (asciiBytes "Source file not found"), thrown⟩]
        (.error thrown)
  | notText {source : List UInt8} (isText : jerryValidateString source = false) (thrown : Thrown) :
      ParseCalls path
        [⟨.sourceRead path, some source⟩,
          ⟨.throwSz .syntaxError (asciiBytes "Input is not a valid UTF-8 encoded string."), thrown⟩]
        (.error thrown)
  | parsed {source : List UInt8} (isText : jerryValidateString source = true)
      (isName : jerryValidateString path = true) (result : Completion ScriptValue) :
      ParseCalls path
        [⟨.sourceRead path, some source⟩, ⟨.parse source (some path), result⟩] result

/-- The calls for a script: it is loaded, and it runs unless that throws. -/
inductive ScriptCalls (path : CString) : List Event → Completion ScriptValue → Prop where
  | refused {trace : List Event} {thrown : Thrown} (parse : ParseCalls path trace (.error thrown)) :
      ScriptCalls path trace (.error thrown)
  | run {trace : List Event} {script : ScriptValue} (parse : ParseCalls path trace (.ok script))
      (ran : Ran (Completion ScriptValue)) :
      ScriptCalls path (trace ++ [⟨.run script, ran⟩]) ran.result

/-- The handler of a reaction. True is the identity, and false is the function that throws its
argument. -/
inductive HandlerCalls (handler argument : ScriptValue) :
    List Event → Completion ScriptValue → Prop where
  | identity (isTrue : handler.value = .simple .true) :
      HandlerCalls handler argument [] (.ok argument)
  | thrower (isFalse : handler.value = .simple .false) :
      HandlerCalls handler argument [] (.error ⟨argument, false⟩)
  | call (notTrue : handler.value ≠ .simple .true) (notFalse : handler.value ≠ .simple .false)
      (ran : Ran (Completion ScriptValue)) :
      HandlerCalls handler argument [⟨.callHandler handler argument, ran⟩] ran.result

/-- An async function or generator is resumed. Nothing comes back if it is suspended again, and
else its completion, which is the promise of an async function once that is settled. -/
inductive ResumeCalls (executableObject : ExecutableObject) (value : ScriptValue) :
    List Event → Option (Completion ScriptValue) → Prop where
  | suspended (jobs : List Job) :
      ResumeCalls executableObject value [⟨.resume executableObject value, ⟨none, jobs⟩⟩] none
  | left {completion : Completion ScriptValue} (jobs : List Job)
      (leaves : executableObject.isAsyncGenerator ∨ completion.isAbort) :
      ResumeCalls executableObject value
        [⟨.resume executableObject value, ⟨some completion, jobs⟩⟩] (some completion)
  | settled {completion : Completion ScriptValue} (jobs : List Job)
      (isFunction : executableObject.isAsyncGenerator = false)
      (notAbort : completion.isAbort = false) (ran : Ran ScriptValue) :
      ResumeCalls executableObject value
        [⟨.resume executableObject value, ⟨some completion, jobs⟩⟩,
          ⟨.asyncExit executableObject completion, ran⟩]
        (some (.ok ran.result))

/-- The calls for a job. -/
inductive JobCalls : Job → List Event → Completion ScriptValue → Prop where
  | resolve {capability handler argument value : ScriptValue} {trace : List Event}
      (handled : HandlerCalls handler argument trace (.ok value))
      (ran : Ran (Completion ScriptValue)) :
      JobCalls (.promiseReaction capability handler argument)
        (trace ++ [⟨.callResolve capability value, ran⟩]) ran.result
  | reject {capability handler argument : ScriptValue} {thrown : Thrown} {trace : List Event}
      (handled : HandlerCalls handler argument trace (.error thrown))
      (ran : Ran (Completion ScriptValue)) :
      JobCalls (.promiseReaction capability handler argument)
        (trace ++ [⟨.callReject capability thrown.thrown, ran⟩]) ran.result
  | goesOn {rejected : Bool} {executableObject : ExecutableObject} {argument : ScriptValue}
      (jobs : List Job) :
      JobCalls (.promiseAsyncReaction rejected executableObject argument)
        [⟨.awaitContinue rejected executableObject argument, ⟨none, jobs⟩⟩] (.ok .undefined)
  | awaits {rejected : Bool} {executableObject : ExecutableObject} {argument value : ScriptValue}
      {trace : List Event} (jobs : List Job)
      (resumed : ResumeCalls executableObject value trace none) :
      JobCalls (.promiseAsyncReaction rejected executableObject argument)
        (⟨.awaitContinue rejected executableObject argument, ⟨some value, jobs⟩⟩ :: trace)
        (.ok .undefined)
  | functionEnds {rejected : Bool} {executableObject : ExecutableObject}
      {argument value : ScriptValue} {trace : List Event} {completion : Completion ScriptValue}
      (jobs : List Job) (isFunction : executableObject.isAsyncGenerator = false)
      (resumed : ResumeCalls executableObject value trace (some completion)) :
      JobCalls (.promiseAsyncReaction rejected executableObject argument)
        (⟨.awaitContinue rejected executableObject argument, ⟨some value, jobs⟩⟩ :: trace)
        completion
  | generatorEnds {rejected : Bool} {executableObject : ExecutableObject}
      {argument value : ScriptValue} {trace : List Event} {completion : Completion ScriptValue}
      (jobs : List Job) (isGenerator : executableObject.isAsyncGenerator = true)
      (resumed : ResumeCalls executableObject value trace (some completion)) (ran : Ran Unit) :
      JobCalls (.promiseAsyncReaction rejected executableObject argument)
        (⟨.awaitContinue rejected executableObject argument, ⟨some value, jobs⟩⟩ ::
          (trace ++ [⟨.asyncGeneratorFinalize executableObject completion, ran⟩]))
        (.ok .undefined)
  | iterates {generator : ScriptValue} (jobs : List Job) :
      JobCalls (.promiseAsyncGenerator generator) [⟨.nextTask generator, ⟨none, jobs⟩⟩]
        (.ok .undefined)
  | yields {generator value : ScriptValue} {trace : List Event} (jobs : List Job)
      (resumed : ResumeCalls ⟨generator, true⟩ value trace none) :
      JobCalls (.promiseAsyncGenerator generator)
        (⟨.nextTask generator, ⟨some value, jobs⟩⟩ :: trace) (.ok .undefined)
  | taskEnds {generator value : ScriptValue} {trace : List Event}
      {completion : Completion ScriptValue} (jobs : List Job)
      (resumed : ResumeCalls ⟨generator, true⟩ value trace (some completion)) (ran : Ran Unit) :
      JobCalls (.promiseAsyncGenerator generator)
        (⟨.nextTask generator, ⟨some value, jobs⟩⟩ ::
          (trace ++ [⟨.asyncGeneratorFinalize ⟨generator, true⟩ completion, ran⟩]))
        (.ok .undefined)
  | executes {promise thenable thenFunction value : ScriptValue} (jobs : List Job) :
      JobCalls (.promiseThenable promise thenable thenFunction)
        [⟨.runExecutor promise thenable thenFunction, ⟨.ok value, jobs⟩⟩] (.ok value)
  | executorThrows {promise thenable thenFunction : ScriptValue} {thrown : Thrown}
      (jobs : List Job) (ran : Ran Unit) :
      JobCalls (.promiseThenable promise thenable thenFunction)
        [⟨.runExecutor promise thenable thenFunction, ⟨.error thrown, jobs⟩⟩,
          ⟨.rejectPromise promise thrown.thrown, ran⟩]
        (.ok .undefined)

/-- A record that is made of scripts and jobs with their calls, and of other calls. -/
inductive Performed : List Event → Prop where
  | nil : Performed []
  | plain {event : Event} {trace : List Event} (isPlain : event.isPlain = true)
      (tail : Performed trace) : Performed (event :: trace)
  | script {path : CString} {between trace : List Event} {result : Completion ScriptValue}
      (calls : ScriptCalls path between result) (tail : Performed trace) :
      Performed (⟨.mark (.execScript path), ()⟩ ::
        (between ++ ⟨.mark (.execScriptReturns path result), ()⟩ :: trace))
  | job {job : Job} {between trace : List Event} {result : Completion ScriptValue}
      (calls : JobCalls job between result) (tail : Performed trace) :
      Performed (⟨.mark (.processJob job), ()⟩ ::
        (between ++ ⟨.mark (.processJobReturns job result), ()⟩ :: trace))

/-- Every script file that is opened and holds valid UTF-8 has a name that is valid UTF-8. -/
def LegibleNames (trace : List Event) : Prop :=
  ∀ path source, (⟨.sourceRead path, some source⟩ : Event) ∈ trace →
    jerryValidateString source = true → jerryValidateString path = true

/-- A call between the marks of a script or a job. -/
def Event.isInner (event : Event) : Prop := event.mark? = none ∧ event.isLifecycle = false

/-- Such a call that opens no script file. -/
def Event.isOutsideScripts (event : Event) : Prop :=
  event.isInner ∧ ∀ path, event.1 ≠ .sourceRead path

section Facts

variable {path : CString} {handler argument value : ScriptValue} {job : Job}
  {executableObject : ExecutableObject} {trace earlier later : List Event}
  {result : Completion ScriptValue} {ending : Option (Completion ScriptValue)}

theorem ParseCalls.inner (calls : ParseCalls path trace result) :
    ∀ event ∈ trace, event.isInner := by
  cases calls <;> simp [Event.isInner, Event.mark?, Event.isLifecycle]

theorem ScriptCalls.inner (calls : ScriptCalls path trace result) :
    ∀ event ∈ trace, event.isInner := by
  cases calls with
  | refused parse => exact parse.inner
  | run parse ran =>
      intro event mem
      rcases List.mem_append.mp mem with inParse | isRun
      · exact parse.inner event inParse
      · rw [List.mem_singleton.mp isRun]
        exact ⟨rfl, rfl⟩

theorem HandlerCalls.outsideScripts (calls : HandlerCalls handler argument trace result) :
    ∀ event ∈ trace, event.isOutsideScripts := by
  cases calls <;> simp [Event.isOutsideScripts, Event.isInner, Event.mark?, Event.isLifecycle]

theorem ResumeCalls.outsideScripts (calls : ResumeCalls executableObject value trace ending) :
    ∀ event ∈ trace, event.isOutsideScripts := by
  cases calls <;> simp [Event.isOutsideScripts, Event.isInner, Event.mark?, Event.isLifecycle]

theorem JobCalls.outsideScripts (calls : JobCalls job trace result) :
    ∀ event ∈ trace, event.isOutsideScripts := by
  intro event mem
  cases calls with
  | resolve handled _ | reject handled _ =>
      rcases List.mem_append.mp mem with inHandler | isLast
      · exact handled.outsideScripts event inHandler
      · rw [List.mem_singleton.mp isLast]
        exact ⟨⟨rfl, rfl⟩, nofun⟩
  | goesOn _ | iterates _ | executes _ =>
      rw [List.mem_singleton.mp mem]
      exact ⟨⟨rfl, rfl⟩, nofun⟩
  | awaits _ resumed | functionEnds _ _ resumed | yields _ resumed =>
      rcases List.mem_cons.mp mem with rfl | inResumed
      · exact ⟨⟨rfl, rfl⟩, nofun⟩
      · exact resumed.outsideScripts event inResumed
  | generatorEnds _ _ resumed _ | taskEnds _ resumed _ =>
      rcases List.mem_cons.mp mem with rfl | mem
      · exact ⟨⟨rfl, rfl⟩, nofun⟩
      · rcases List.mem_append.mp mem with inResumed | isLast
        · exact resumed.outsideScripts event inResumed
        · rw [List.mem_singleton.mp isLast]
          exact ⟨⟨rfl, rfl⟩, nofun⟩
  | executorThrows _ _ =>
      rcases List.mem_cons.mp mem with rfl | isLast
      · exact ⟨⟨rfl, rfl⟩, nofun⟩
      · rw [List.mem_singleton.mp isLast]
        exact ⟨⟨rfl, rfl⟩, nofun⟩

theorem JobCalls.inner (calls : JobCalls job trace result) : ∀ event ∈ trace, event.isInner :=
  fun event mem => (calls.outsideScripts event mem).1

theorem marks_of_inner (inner : ∀ event ∈ trace, event.isInner) : marks trace = [] :=
  List.filterMap_eq_nil_iff.mpr fun event mem => (inner event mem).1

theorem noLifecycle_of_inner (inner : ∀ event ∈ trace, event.isInner) : NoLifecycle trace :=
  fun event mem => (inner event mem).2

theorem Performed.append (first : Performed earlier) (second : Performed later) :
    Performed (earlier ++ later) := by
  induction first with
  | nil => exact second
  | plain isPlain _ ih => exact .plain isPlain ih
  | script calls _ ih =>
      rw [List.cons_append, List.append_assoc, List.cons_append]
      exact .script calls ih
  | job calls _ ih =>
      rw [List.cons_append, List.append_assoc, List.cons_append]
      exact .job calls ih

theorem performed_of_plain (plain : ∀ event ∈ trace, event.isPlain = true) : Performed trace := by
  induction trace with
  | nil => exact .nil
  | cons event trace ih =>
      refine .plain (plain event (List.mem_cons_self ..)) (ih ?_)
      intro other mem
      exact plain other (List.mem_cons_of_mem event mem)

theorem Quiet.performed {state changed : DriverState} (quiet : Quiet state trace changed) :
    Performed trace :=
  performed_of_plain quiet.plain

end Facts

section Names

variable {path : CString} {job : Job} {earlier later trace : List Event}
  {result : Completion ScriptValue}

theorem legibleNames_append :
    LegibleNames (earlier ++ later) ↔ LegibleNames earlier ∧ LegibleNames later := by
  constructor
  · intro legible
    refine ⟨fun path source mem => ?_, fun path source mem => ?_⟩
    · exact legible path source (List.mem_append_left later mem)
    · exact legible path source (List.mem_append_right earlier mem)
  · rintro ⟨first, second⟩ path source mem
    rcases List.mem_append.mp mem with inEarlier | inLater
    · exact first path source inEarlier
    · exact second path source inLater

/-- No script file is opened here. -/
theorem legibleNames_of_no_reads
    (noReads : ∀ event ∈ trace, ∀ path, event.1 ≠ .sourceRead path) : LegibleNames trace := by
  intro path source mem
  exact absurd rfl (noReads _ mem path)

theorem ParseCalls.legibleNames (calls : ParseCalls path trace result) : LegibleNames trace := by
  intro other source mem isText
  cases calls with
  | notFound thrown => simp at mem
  | notText notText thrown =>
      simp only [List.mem_cons, List.not_mem_nil, or_false, Sigma.mk.injEq, Call.sourceRead.injEq,
        reduceCtorEq, false_and] at mem
      rcases mem with ⟨rfl, same⟩
      cases same
      rw [isText] at notText
      cases notText
  | parsed _ isName result =>
      simp only [List.mem_cons, List.not_mem_nil, or_false, Sigma.mk.injEq, Call.sourceRead.injEq,
        reduceCtorEq, false_and] at mem
      rw [mem.1]
      exact isName

theorem ScriptCalls.legibleNames (calls : ScriptCalls path trace result) :
    LegibleNames trace := by
  cases calls with
  | refused parse => exact parse.legibleNames
  | run parse ran =>
      refine legibleNames_append.mpr ⟨parse.legibleNames, legibleNames_of_no_reads ?_⟩
      simp

theorem JobCalls.legibleNames (calls : JobCalls job trace result) : LegibleNames trace :=
  legibleNames_of_no_reads fun event mem => (calls.outsideScripts event mem).2

/-- In a record that is made of whole scripts no name has stopped the engine. -/
theorem Performed.legibleNames (performed : Performed trace) : LegibleNames trace := by
  induction performed with
  | nil => exact legibleNames_of_no_reads (by simp)
  | @plain event trace isPlain _ ih =>
      refine (@legibleNames_append [event] trace).mpr ⟨legibleNames_of_no_reads ?_, ih⟩
      intro other mem path isRead
      rw [List.mem_singleton.mp mem] at isRead
      rcases event with ⟨call, reply⟩
      subst isRead
      cases isPlain
  | @script path between trace result calls _ ih =>
      rw [List.append_cons between, ← List.cons_append]
      refine legibleNames_append.mpr ⟨?_, ih⟩
      refine (@legibleNames_append [_] _).mpr ⟨legibleNames_of_no_reads (by simp), ?_⟩
      exact legibleNames_append.mpr ⟨calls.legibleNames, legibleNames_of_no_reads (by simp)⟩
  | @job job between trace result calls _ ih =>
      rw [List.append_cons between, ← List.cons_append]
      refine legibleNames_append.mpr ⟨?_, ih⟩
      refine (@legibleNames_append [_] _).mpr ⟨legibleNames_of_no_reads (by simp), ?_⟩
      exact legibleNames_append.mpr ⟨calls.legibleNames, legibleNames_of_no_reads (by simp)⟩

end Names

end Cmsframe
