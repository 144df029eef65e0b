import Cmsframe.Main.Performed

/-!
# The phases of a run

The record of each part of the driver: one script, all scripts, the job queue, the
interactive loop. A phase of scripts ends at the first exception with its report, a phase
of jobs at the first exception without one.
-/

namespace Cmsframe

open Interaction

/-- The exception has been reported: its text was logged as an error. -/
def Reports (thrown : Thrown) (trace : List Event) : Prop :=
  ∃ earlier ran later, trace = earlier ++ ⟨.describe thrown.thrown, ran⟩ ::
    ⟨.log .error (Driver.unhandledException ran.result), ()⟩ :: later

/-- A function throws. -/
def Throws {α : Type} (result : Completion α) : Prop := ∃ thrown, result = .error thrown

theorem not_throws_ok {α : Type} (value : α) : ¬ Throws (.ok value : Completion α) := by
  rintro ⟨thrown, ⟨⟩⟩

theorem throws_iff_isError {α : Type} (result : Completion α) :
    Throws result ↔ result.isError = true := by
  cases result with
  | error thrown => exact iff_of_true ⟨thrown, rfl⟩ rfl
  | ok value => exact iff_of_false (not_throws_ok value) Bool.false_ne_true

/-- An exception that is the result of a job comes back from user code. -/
def Escapes (trace : List Event) : Prop := ∃ event ∈ trace, event.isEscape = true

theorem not_escapes_nil : ¬ Escapes [] := by
  rintro ⟨event, mem, _⟩
  cases mem

@[simp]
theorem escapes_cons (event : Event) (trace : List Event) :
    Escapes (event :: trace) ↔ event.isEscape = true ∨ Escapes trace := by
  simp [Escapes]

@[simp]
theorem escapes_append (earlier later : List Event) :
    Escapes (earlier ++ later) ↔ Escapes earlier ∨ Escapes later := by
  constructor
  · rintro ⟨event, mem, isEscape⟩
    rcases List.mem_append.mp mem with inEarlier | inLater
    · exact .inl ⟨event, inEarlier, isEscape⟩
    · exact .inr ⟨event, inLater, isEscape⟩
  · rintro (⟨event, mem, isEscape⟩ | ⟨event, mem, isEscape⟩)
    · exact ⟨event, List.mem_append_left later mem, isEscape⟩
    · exact ⟨event, List.mem_append_right earlier mem, isEscape⟩

/-- No result in a list is an exception. -/
def AllReturned {Item : Type} (results : List (Item × Completion ScriptValue)) : Prop :=
  ∀ result ∈ results, ∃ value, result.2 = .ok value

theorem allReturned_nil {Item : Type} : AllReturned ([] : List (Item × Completion ScriptValue)) :=
  List.forall_mem_nil _

theorem AllReturned.append {Item : Type} {earlier later : List (Item × Completion ScriptValue)}
    (first : AllReturned earlier) (second : AllReturned later) :
    AllReturned (earlier ++ later) := by
  intro result mem
  rcases List.mem_append.mp mem with inEarlier | inLater
  · exact first result inEarlier
  · exact second result inLater

section Calls

variable {path : CString} {handler argument value : ScriptValue} {job : Job}
  {executableObject : ExecutableObject} {trace : List Event} {result : Completion ScriptValue}
  {completion : Completion ScriptValue} {ending : Option (Completion ScriptValue)}

/-- Loading a script enqueues no jobs. -/
theorem ParseCalls.enqueuedJobs (calls : ParseCalls path trace result) :
    enqueuedJobs trace = [] := by
  cases calls <;> rfl

theorem HandlerCalls.not_escapes (calls : HandlerCalls handler argument trace result) :
    ¬Escapes trace := by
  cases calls <;> simp [Escapes, Event.isEscape]

/-- Only an abort gets past `VM_OC_ASYNC_EXIT`. -/
theorem ResumeCalls.escapes (calls : ResumeCalls executableObject value trace ending) :
    Escapes trace ↔ executableObject.isAsyncGenerator = false ∧
      ∃ thrown : Thrown, ending = some (.error thrown) := by
  cases calls with
  | suspended jobs => simp [Event.isEscape, not_escapes_nil]
  | @left completion jobs leaves =>
      cases completion with
      | error thrown =>
          simp only [Completion.isAbort] at leaves
          cases isGenerator : executableObject.isAsyncGenerator <;>
            simp_all [Event.isEscape, not_escapes_nil, Completion.isAbort]
      | ok value => simp [Event.isEscape, not_escapes_nil, Completion.isAbort]
  | settled jobs isFunction notAbort ran => simp [Event.isEscape, not_escapes_nil, notAbort]

/-- A job throws exactly if the `resolve` or `reject` function it calls last throws, or the async
function it resumes is aborted. -/
theorem JobCalls.throws_iff (calls : JobCalls job trace result) :
    Throws result ↔ Escapes trace := by
  cases calls with
  | resolve handled ran | reject handled ran =>
      rw [escapes_append, escapes_cons, or_iff_right handled.not_escapes,
        or_iff_left not_escapes_nil]
      exact throws_iff_isError ran.result
  | goesOn jobs | iterates jobs | executes jobs | executorThrows jobs ran =>
      simp [Throws, Event.isEscape, not_escapes_nil]
  | awaits jobs resumed | yields jobs resumed =>
      simp [Throws, Event.isEscape, resumed.escapes]
  | functionEnds jobs isFunction resumed =>
      simp [Throws, Event.isEscape, resumed.escapes, isFunction]
  | generatorEnds jobs isGenerator resumed ran =>
      simp [Throws, Event.isEscape, not_escapes_nil, resumed.escapes, isGenerator]
  | taskEnds jobs resumed ran =>
      simp [Throws, Event.isEscape, not_escapes_nil, resumed.escapes]

end Calls

namespace Driver

variable {World : Type}

theorem traces_jerryxSourceParseScript (path : CString) (state : DriverState) :
    (jerryxSourceParseScript path : Driver World (Completion ScriptValue)).Traces state
      (fun trace result changed => ParseCalls path trace result ∧ changed = state)
      fun trace => ¬LegibleNames trace := by
  apply Routine.traces_perform_bind
  intro source
  cases source with
  | none =>
      apply ((traces_jerryLog_error _ state).mono (fun _ _ _ => id) fun _ => False.elim).bind
      rintro _ _ _ ⟨rfl, rfl⟩
      apply Routine.traces_perform_bind
      intro thrown
      exact Routine.traces_pure ⟨.notFound thrown, rfl⟩
  | some source =>
      cases isText : jerryValidateString source with
      | false =>
          simp only [isText, Bool.false_eq_true, if_false]
          apply Routine.traces_perform_bind
          intro thrown
          exact Routine.traces_pure ⟨.notText isText thrown, rfl⟩
      | true =>
          simp only [isText, if_true]
          rw [jerryString]
          split_ifs with isName
          · rw [pure_bind]
            exact Routine.traces_perform fun result => ⟨.parsed isText isName result, rfl⟩
          · -- `jerry_string` fails its assertion
            intro behaviour world legible
            exact isName (legible path source (List.mem_singleton.mpr rfl) isText)

theorem isQuiet_logBacktrace (index : ℕ) (items : List (Option CString)) :
    IsQuiet (logBacktrace index items : Driver World Unit) := by
  induction items generalizing index with
  | nil => exact isQuiet_pure ()
  | cons item items ih =>
      cases item with
      | none => exact ih (index + 1)
      | some text =>
          apply (isQuiet_jerryLog _ _).bind
          intro _
          exact ih (index + 1)

/-- Resuming an async function or generator. -/
theorem traces_opfuncResumeExecutableObject (executableObject : ExecutableObject)
    (value : ScriptValue) (state : DriverState) :
    (opfuncResumeExecutableObject executableObject value :
        Driver World (Bool × Completion ScriptValue)).Traces state
      (fun trace answer changed => (∃ ending, ResumeCalls executableObject value trace ending ∧
          answer = (ending.isSome, ending.getD (.ok .undefined))) ∧
        changed.jobQueue = state.jobQueue ++ enqueuedJobs trace) fun _ => False := by
  apply traces_userCode_bind
  rintro ⟨completion, jobs⟩ resumed queue
  cases completion with
  | none =>
      apply Routine.traces_pure
      exact ⟨⟨none, .suspended jobs, rfl⟩, by simpa [Event.enqueued] using queue⟩
  | some completion =>
      simp only [id]
      split_ifs with leaves
      · apply Routine.traces_pure
        exact ⟨⟨some completion, .left jobs leaves, rfl⟩, by simpa [Event.enqueued] using queue⟩
      · rw [not_or, Bool.not_eq_true, Bool.not_eq_true] at leaves
        apply traces_userCode_bind
        rintro ran settled settledQueue
        apply Routine.traces_pure
        refine ⟨⟨_, .settled jobs leaves.1 leaves.2 ran, rfl⟩, ?_⟩
        rw [settledQueue, queue]
        simp [Event.enqueued]

/-- The record is that of the job, and what its calls enqueue comes to the end of the queue. -/
def IsJob (job : Job) (driver : Driver World (Completion ScriptValue)) : Prop :=
  ∀ state, driver.Traces state
    (fun trace result changed => JobCalls job trace result ∧
      changed.jobQueue = state.jobQueue ++ enqueuedJobs trace) fun _ => False

theorem isJob_ecmaProcessPromiseReactionJob (capability handler argument : ScriptValue) :
    IsJob (.promiseReaction capability handler argument)
      (ecmaProcessPromiseReactionJob capability handler argument : Driver World _) := by
  intro state
  have handled : (
      if handler.value = .simple .true ∨ handler.value = .simple .false then
        return .ok argument
      else
        userCode (.callHandler handler argument) id :
      Driver World (Completion ScriptValue)).Traces state
        (fun trace result changed =>
          (∃ handled, HandlerCalls handler argument trace handled ∧
            if handler.value = .simple .false then
              result = .ok argument ∧ handled = .error ⟨argument, false⟩
            else result = handled) ∧
          changed.jobQueue = state.jobQueue ++ enqueuedJobs trace) fun _ => False := by
    split_ifs with isBoolean isFalse isFalse
    · apply Routine.traces_pure
      exact ⟨⟨_, .thrower isFalse, rfl, rfl⟩, by simp⟩
    · apply Routine.traces_pure
      exact ⟨⟨_, .identity (isBoolean.resolve_right isFalse), rfl⟩, by simp⟩
    · exact absurd (.inr isFalse) isBoolean
    · apply (traces_userCode _ _ state).mono
      · rintro _ _ changed ⟨ran, rfl, rfl, queue⟩
        rw [not_or] at isBoolean
        exact ⟨⟨_, .call isBoolean.1 isBoolean.2 ran, rfl⟩,
          by simpa [Event.enqueued] using queue⟩
      · exact fun _ => id
  apply handled.bind
  rintro trace result changed ⟨⟨completion, calls, same⟩, queue⟩
  split_ifs at same with isFalse
  · rcases same with ⟨rfl, rfl⟩
    simp only [isFalse, if_true]
    apply (traces_userCode _ _ changed).mono
    · rintro _ _ last ⟨ran, rfl, rfl, lastQueue⟩
      refine ⟨.reject calls ran, ?_⟩
      rw [lastQueue, queue]
      simp [Event.enqueued]
    · exact fun _ => id
  · subst same
    cases result with
    | error thrown =>
        apply (traces_userCode _ _ changed).mono
        · rintro _ _ last ⟨ran, rfl, rfl, lastQueue⟩
          refine ⟨.reject calls ran, ?_⟩
          rw [lastQueue, queue]
          simp [Event.enqueued]
        · exact fun _ => id
    | ok value =>
        simp only [isFalse, if_false]
        apply (traces_userCode _ _ changed).mono
        · rintro _ _ last ⟨ran, rfl, rfl, lastQueue⟩
          refine ⟨.resolve calls ran, ?_⟩
          rw [lastQueue, queue]
          simp [Event.enqueued]
        · exact fun _ => id

theorem isJob_ecmaProcessPromiseAsyncReactionJob (rejected : Bool)
    (executableObject : ExecutableObject) (argument : ScriptValue) :
    IsJob (.promiseAsyncReaction rejected executableObject argument)
      (ecmaProcessPromiseAsyncReactionJob rejected executableObject argument :
        Driver World _) := by
  intro state
  apply traces_userCode_bind
  rintro ⟨continued, jobs⟩ changed queue
  cases continued with
  | none =>
      apply Routine.traces_pure
      exact ⟨.goesOn jobs, by simpa [Event.enqueued] using queue⟩
  | some value =>
      apply (traces_opfuncResumeExecutableObject executableObject value changed).bind
      rintro trace _ resumed ⟨⟨ending, calls, rfl⟩, resumedQueue⟩
      cases ending with
      | none =>
          apply Routine.traces_pure
          refine ⟨.awaits jobs (by simpa using calls), ?_⟩
          rw [resumedQueue, queue]
          simp [Event.enqueued]
      | some completion =>
          simp only [Option.isSome_some, Option.getD_some, true_and]
          split_ifs with isGenerator
          · apply traces_userCode_bind
            intro ran finalized lastQueue
            apply Routine.traces_pure
            refine ⟨.generatorEnds jobs isGenerator calls ran, ?_⟩
            rw [lastQueue, resumedQueue, queue]
            simp [Event.enqueued]
          · apply Routine.traces_pure
            refine ⟨.functionEnds jobs (by simpa using isGenerator) (by simpa using calls), ?_⟩
            rw [resumedQueue, queue]
            simp [Event.enqueued]

theorem isJob_ecmaAsyncGeneratorRun (generator : ScriptValue) :
    IsJob (.promiseAsyncGenerator generator)
      (ecmaAsyncGeneratorRun generator : Driver World _) := by
  intro state
  apply traces_userCode_bind
  rintro ⟨next, jobs⟩ changed queue
  cases next with
  | none =>
      apply Routine.traces_pure
      exact ⟨.iterates jobs, by simpa [Event.enqueued] using queue⟩
  | some value =>
      apply (traces_opfuncResumeExecutableObject ⟨generator, true⟩ value changed).bind
      rintro trace _ resumed ⟨⟨ending, calls, rfl⟩, resumedQueue⟩
      cases ending with
      | none =>
          apply Routine.traces_pure
          refine ⟨.yields jobs (by simpa using calls), ?_⟩
          rw [resumedQueue, queue]
          simp [Event.enqueued]
      | some completion =>
          apply traces_userCode_bind
          intro ran finalized lastQueue
          apply Routine.traces_pure
          refine ⟨.taskEnds jobs calls ran, ?_⟩
          rw [lastQueue, resumedQueue, queue]
          simp [Event.enqueued]

theorem isJob_ecmaProcessPromiseResolveThenableJob
    (promise thenable thenFunction : ScriptValue) :
    IsJob (.promiseThenable promise thenable thenFunction)
      (ecmaProcessPromiseResolveThenableJob promise thenable thenFunction :
        Driver World _) := by
  intro state
  apply traces_userCode_bind
  rintro ⟨result, jobs⟩ changed queue
  cases result with
  | ok value =>
      apply Routine.traces_pure
      exact ⟨.executes jobs, by simpa [Event.enqueued] using queue⟩
  | error thrown =>
      apply traces_userCode_bind
      intro ran last lastQueue
      apply Routine.traces_pure
      refine ⟨.executorThrows jobs ran, ?_⟩
      rw [lastQueue, queue]
      simp [Event.enqueued]

theorem isJob_processJob (job : Job) : IsJob job (processJob job : Driver World _) := by
  cases job with
  | promiseReaction capability handler argument =>
      exact isJob_ecmaProcessPromiseReactionJob capability handler argument
  | promiseAsyncReaction rejected executableObject argument =>
      exact isJob_ecmaProcessPromiseAsyncReactionJob rejected executableObject argument
  | promiseAsyncGenerator generator => exact isJob_ecmaAsyncGeneratorRun generator
  | promiseThenable promise thenable thenFunction =>
      exact isJob_ecmaProcessPromiseResolveThenableJob promise thenable thenFunction

/-- The report of an exception. -/
theorem traces_jerryxPrintUnhandledException (exception : Thrown) (state : DriverState) :
    (jerryxPrintUnhandledException exception : Driver World Unit).Traces state
      (fun trace _ changed => Quiet state trace changed ∧ Reports exception trace)
      fun _ => False := by
  apply (traces_userCode (.describe exception.thrown) id state).bind
  rintro _ _ described ⟨ran, rfl, rfl, queue⟩
  apply (traces_jerryLog_error _ described).bind
  rintro _ _ logged ⟨rfl, rfl⟩
  have backtrace : IsQuiet (do
      if exception.thrown.value.isObject then
        let items ← userCode (.backtrace exception.thrown) id
        logBacktrace 0 (items.take 32) : Driver World Unit) := by
    split_ifs
    · apply (isQuiet_userCode fun _ => ⟨rfl, rfl, rfl, rfl⟩).bind
      intro items
      exact isQuiet_logBacktrace 0 _
    · exact isQuiet_pure ()
  apply (backtrace _).mono
  · intro more _ changed quiet
    have before : Quiet state [⟨.describe exception.thrown, ran⟩,
        ⟨.log .error (unhandledException ran.result), ()⟩] logged := by
      refine ⟨rfl, ?_, ?_, ?_⟩
      · simp [NoLifecycle, Event.isLifecycle]
      · simp [Event.isPlain]
      · rw [queue]
        simp [Event.enqueued]
    exact ⟨before.append quiet, [], ran, more, rfl⟩
  · exact fun _ => id

/-- The record of one script. -/
theorem traces_jerryxSourceExecScript (path : CString) (state : DriverState) :
    (jerryxSourceExecScript path : Driver World (Completion ScriptValue)).Traces state
      (fun trace result changed => ∃ between, trace = ⟨.mark (.execScript path), ()⟩ ::
        (between ++ [⟨.mark (.execScriptReturns path result), ()⟩]) ∧
          ScriptCalls path between result ∧
          changed.jobQueue = state.jobQueue ++ enqueuedJobs between)
      fun trace => ¬LegibleNames trace := by
  have body : (parseAndRun path : Driver World (Completion ScriptValue)).Traces state
      (fun trace result changed => ScriptCalls path trace result ∧
        changed.jobQueue = state.jobQueue ++ enqueuedJobs trace)
      fun trace => ¬LegibleNames trace := by
    apply (traces_jerryxSourceParseScript path state).bind
    rintro trace script _ ⟨parse, rfl⟩
    cases script with
    | error thrown =>
        apply Routine.traces_pure
        rw [List.append_nil, parse.enqueuedJobs, List.append_nil]
        exact ⟨.refused parse, rfl⟩
    | ok script =>
        apply (traces_userCode _ _ _).mono
        · rintro _ _ changed ⟨ran, rfl, rfl, queue⟩
          refine ⟨.run parse ran, ?_⟩
          rw [queue, enqueuedJobs_append, parse.enqueuedJobs]
          simp [Event.enqueued]
        · exact fun _ => False.elim
  apply Routine.traces_perform_bind
  intro _
  apply (body.mono (fun _ _ _ => id) fun trace => ?_).bind
  · rintro between result changed ⟨calls, queue⟩
    apply Routine.traces_perform_bind
    intro _
    exact Routine.traces_pure ⟨between, rfl, calls, queue⟩
  · intro illegible legible
    exact illegible ((@legibleNames_append [_] trace).mp legible).2

/-- The record of one job. -/
theorem traces_takeJob (job : Job) (jobs : List Job) (state : DriverState) :
    (takeJob job jobs : Driver World (Completion ScriptValue)).Traces state
      (fun trace result changed => ∃ between, trace = ⟨.mark (.processJob job), ()⟩ ::
        (between ++ [⟨.mark (.processJobReturns job result), ()⟩]) ∧
          JobCalls job between result ∧ changed.jobQueue = jobs ++ enqueuedJobs between)
      fun _ => False := by
  apply Routine.traces_get_bind
  apply Routine.traces_set_bind
  apply Routine.traces_perform_bind
  intro _
  apply (isJob_processJob job _).bind
  rintro between result changed ⟨calls, queue⟩
  apply Routine.traces_perform_bind
  intro _
  exact Routine.traces_pure ⟨between, rfl, calls, queue⟩

end Driver

/-- A record in which no script starts or ends. -/
def NoScripts (trace : List Event) : Prop :=
  executedScripts trace = [] ∧ scriptResults trace = []

/-- A record in which no job starts or ends. -/
def NoJobs (trace : List Event) : Prop := processedJobs trace = [] ∧ jobResults trace = []

theorem noScripts_of_no_marks {trace : List Event} (noMarks : marks trace = []) :
    NoScripts trace := by
  simp [NoScripts, executedScripts, scriptResults, noMarks]

theorem noJobs_of_no_marks {trace : List Event} (noMarks : marks trace = []) : NoJobs trace := by
  simp [NoJobs, processedJobs, jobResults, noMarks]

theorem NoScripts.append {earlier later : List Event} (first : NoScripts earlier)
    (second : NoScripts later) : NoScripts (earlier ++ later) := by
  simp [NoScripts, first.1, first.2, second.1, second.2]

theorem NoJobs.append {earlier later : List Event} (first : NoJobs earlier)
    (second : NoJobs later) : NoJobs (earlier ++ later) := by
  simp [NoJobs, first.1, first.2, second.1, second.2]

theorem noLifecycle_singleton {event : Event} (other : event.isLifecycle = false) :
    NoLifecycle [event] := by
  intro member mem
  rw [List.mem_singleton.mp mem]
  exact other

/-- The record of one script with its marks. -/
theorem script_record {path : CString} {result : Completion ScriptValue} {between : List Event}
    {queue rest : List Job} (calls : ScriptCalls path between result)
    (enqueues : rest = queue ++ enqueuedJobs between) :
    let trace : List Event := ⟨.mark (.execScript path), ()⟩ ::
      (between ++ [⟨.mark (.execScriptReturns path result), ()⟩])
    NoLifecycle trace ∧ NoJobs trace ∧ Performed trace ∧ Fifo queue trace rest ∧
      executedScripts trace = [path] ∧ scriptResults trace = [(path, result)] := by
  intro trace
  have noMarks := marks_of_inner calls.inner
  have marked : marks trace = [.execScript path, .execScriptReturns path result] := by
    simp only [trace, marks_cons, marks_append, noMarks]
    rfl
  refine ⟨?_, ?_, .script calls .nil, ?_, ?_, ?_⟩
  · exact (noLifecycle_singleton rfl).append
      ((noLifecycle_of_inner calls.inner).append (noLifecycle_singleton rfl))
  · simp [NoJobs, processedJobs, jobResults, marked, Mark.processed?, Mark.jobResult?]
  · rw [enqueues]
    refine (Fifo.mark ?_).append ((Fifo.of_no_marks queue noMarks).append (Fifo.mark ?_))
    · intro job same
      cases same
    · intro job same
      cases same
  · rw [executedScripts, marked]
    rfl
  · rw [scriptResults, marked]
    rfl

/-- The record of one job with its marks. -/
theorem job_record {job : Job} {result : Completion ScriptValue} {between : List Event}
    {jobs rest : List Job} (calls : JobCalls job between result)
    (enqueues : rest = jobs ++ enqueuedJobs between) :
    let trace : List Event := ⟨.mark (.processJob job), ()⟩ ::
      (between ++ [⟨.mark (.processJobReturns job result), ()⟩])
    NoLifecycle trace ∧ NoScripts trace ∧ Performed trace ∧ Fifo (job :: jobs) trace rest ∧
      processedJobs trace = [job] ∧ jobResults trace = [(job, result)] ∧
      (Throws result ↔ Escapes trace) := by
  intro trace
  have noMarks := marks_of_inner calls.inner
  have marked : marks trace = [.processJob job, .processJobReturns job result] := by
    simp only [trace, marks_cons, marks_append, noMarks]
    rfl
  refine ⟨?_, ?_, .job calls .nil, ?_, ?_, ?_, ?_⟩
  · exact (noLifecycle_singleton rfl).append
      ((noLifecycle_of_inner calls.inner).append (noLifecycle_singleton rfl))
  · simp [NoScripts, executedScripts, scriptResults, marked, Mark.executed?, Mark.scriptResult?]
  · rw [enqueues]
    refine .take ((Fifo.of_no_marks jobs noMarks).append (Fifo.mark ?_))
    intro other same
    cases same
  · rw [processedJobs, marked]
    rfl
  · rw [jobResults, marked]
    rfl
  · rw [calls.throws_iff]
    simp [trace, Event.isEscape, not_escapes_nil]

/-- The phase of the scripts: all of them return, or the first exception is reported and no
script follows. -/
structure ScriptPhase (files : List CString) (queue : List Job) (trace : List Event)
    (exitCode : ℕ) (rest : List Job) : Prop where
  noLifecycle : NoLifecycle trace
  noJobs : NoJobs trace
  performed : Performed trace
  fifo : Fifo queue trace rest
  named : (scriptResults trace).map Prod.fst = executedScripts trace
  ends : (exitCode = Driver.exitCodeOk ∧ executedScripts trace = files ∧
      AllReturned (scriptResults trace)) ∨
    (exitCode = Driver.exitCodeFail ∧ executedScripts trace <+: files ∧
      ∃ earlier path thrown later,
        trace = earlier ++ ⟨.mark (.execScriptReturns path (.error thrown)), ()⟩ :: later ∧
          AllReturned (scriptResults earlier) ∧ marks later = [] ∧ Reports thrown later)

/-- The run of a job queue was stopped after `fuel` jobs. -/
def Stopped (fuel : ℕ) (queue : List Job) (trace : List Event) : Prop :=
  ∃ rest, Fifo queue trace rest ∧ fuel ≤ (processedJobs trace).length

theorem Stopped.prepend {fuel : ℕ} {queue middle : List Job} {earlier later : List Event}
    (first : Fifo queue earlier middle) (stopped : Stopped fuel middle later) :
    Stopped fuel queue (earlier ++ later) := by
  rcases stopped with ⟨rest, second, enough⟩
  refine ⟨rest, first.append second, ?_⟩
  rw [processedJobs_append, List.length_append]
  exact Nat.le_add_left_of_le enough

/-- The phase of the jobs: all of them return and none is left, or the record ends with the
first exception. -/
structure JobPhase (queue : List Job) (trace : List Event) (result : Completion ScriptValue)
    (rest : List Job) : Prop where
  noLifecycle : NoLifecycle trace
  noScripts : NoScripts trace
  performed : Performed trace
  fifo : Fifo queue trace rest
  named : (jobResults trace).map Prod.fst = processedJobs trace
  escapes : Throws result ↔ Escapes trace
  ends : ((∃ value, result = .ok value) ∧ AllReturned (jobResults trace) ∧ rest = []) ∨
    ∃ thrown earlier job, result = .error thrown ∧
      trace = earlier ++ [⟨.mark (.processJobReturns job (.error thrown)), ()⟩] ∧
        AllReturned (jobResults earlier)

namespace Driver

variable {World : Type}

theorem traces_execScripts (files : List CString) (state : DriverState) :
    (execScripts files : Driver World ℕ).Traces state
      (fun trace exitCode changed =>
        ScriptPhase files state.jobQueue trace exitCode changed.jobQueue)
      fun trace => ¬LegibleNames trace := by
  induction files generalizing state with
  | nil =>
      apply Routine.traces_pure
      exact ⟨noLifecycle_nil, ⟨rfl, rfl⟩, .nil, .nil, rfl, .inl ⟨rfl, rfl, allReturned_nil⟩⟩
  | cons file files ih =>
      apply (traces_jerryxSourceExecScript file state).bind
      rintro _ result changed ⟨between, rfl, calls, queue⟩
      rcases script_record calls queue with
        ⟨noLifecycle, noJobs, performed, fifo, executed, results⟩
      cases result with
      | error thrown =>
          apply ((traces_jerryxPrintUnhandledException thrown changed).mono (fun _ _ _ => id)
            fun _ => False.elim).bind
          rintro report _ reported ⟨quietReport, reports⟩
          apply Routine.traces_pure
          rw [List.append_nil]
          have silent := noScripts_of_no_marks quietReport.noMarks
          refine ⟨noLifecycle.append quietReport.noLifecycle,
            noJobs.append (noJobs_of_no_marks quietReport.noMarks),
            performed.append quietReport.performed, fifo.append quietReport.fifo, ?_,
            .inr ⟨rfl, ?_, ?_⟩⟩
          · rw [scriptResults_append, executedScripts_append, results, executed, silent.1, silent.2]
            rfl
          · rw [executedScripts_append, executed, silent.1]
            exact ⟨files, rfl⟩
          · refine ⟨⟨.mark (.execScript file), ()⟩ :: between, file, thrown, report, ?_, ?_,
              quietReport.noMarks, reports⟩
            · simp
            · have noResult : scriptResults (⟨.mark (.execScript file), ()⟩ :: between) = [] := by
                simp [scriptResults, marks_cons, marks_of_inner calls.inner, Event.mark?,
                  Mark.scriptResult?]
              rw [noResult]
              exact allReturned_nil
      | ok value =>
          apply (ih changed).mono
          · intro more exitCode final phase
            have first :
                AllReturned [((file : CString), (Except.ok value : Completion ScriptValue))] := by
              intro item mem
              rw [List.mem_singleton.mp mem]
              exact ⟨value, rfl⟩
            refine ⟨noLifecycle.append phase.noLifecycle, noJobs.append phase.noJobs,
              performed.append phase.performed, fifo.append phase.fifo, ?_, ?_⟩
            · rw [scriptResults_append, executedScripts_append, results, executed, List.map_append,
                phase.named]
              rfl
            · rcases phase.ends with ⟨isOk, all, returned⟩ |
                ⟨isFail, started, earlier, path, thrown, later, rfl, returned, silent, reports⟩
              · left
                refine ⟨isOk, ?_, ?_⟩
                · rw [executedScripts_append, executed, all]
                  rfl
                · rw [scriptResults_append, results]
                  exact first.append returned
              · right
                refine ⟨isFail, ?_, _, path, thrown, later, (List.append_assoc _ _ _).symm, ?_,
                  silent, reports⟩
                · rw [executedScripts_append, executed]
                  exact List.prefix_append_right_inj [file] |>.mpr started
                · rw [scriptResults_append, results]
                  exact first.append returned
          · intro more illegible legible
            exact illegible (legibleNames_append.mp legible).2

theorem jobPhase_nil {queue : List Job} (isEmpty : queue = []) :
    JobPhase queue [] (.ok ⟨.undefined, rfl⟩) queue :=
  ⟨noLifecycle_nil, ⟨rfl, rfl⟩, .nil, .nil, rfl, ⟨(not_throws_ok _).elim, not_escapes_nil.elim⟩,
    .inl ⟨⟨_, rfl⟩, allReturned_nil, isEmpty⟩⟩

/-- The queue is processed up to the first exception, including what is enqueued meanwhile. -/
theorem traces_jerryRunJobs (fuel : ℕ) (state : DriverState) :
    (jerryRunJobs fuel : Driver World (Completion ScriptValue)).Traces state
      (fun trace result changed => JobPhase state.jobQueue trace result changed.jobQueue)
      (Stopped fuel state.jobQueue) := by
  induction fuel generalizing state with
  | zero =>
      apply Routine.traces_get_bind
      cases queue : state.jobQueue with
      | nil =>
          apply Routine.traces_pure
          rw [queue]
          exact jobPhase_nil rfl
      | cons job jobs => exact Routine.traces_fail ⟨_, .nil, Nat.zero_le _⟩
  | succ fuel ih =>
      apply Routine.traces_get_bind
      cases queue : state.jobQueue with
      | nil =>
          apply Routine.traces_pure
          rw [queue]
          exact jobPhase_nil rfl
      | cons job jobs =>
          apply ((traces_takeJob job jobs state).mono (fun _ _ _ => id)
            fun _ => False.elim).bind
          rintro _ result changed ⟨between, rfl, calls, enqueues⟩
          rcases job_record calls enqueues with
            ⟨noLifecycle, noScripts, performed, fifo, processed, results, throws⟩
          cases result with
          | error thrown =>
              apply Routine.traces_pure
              rw [List.append_nil]
              refine ⟨noLifecycle, noScripts, performed, fifo, by rw [results, processed]; rfl,
                throws, .inr ⟨thrown, ⟨.mark (.processJob job), ()⟩ :: between, job, rfl, rfl, ?_⟩⟩
              have noResult : jobResults (⟨.mark (.processJob job), ()⟩ :: between) = [] := by
                simp [jobResults, marks_cons, marks_of_inner calls.inner, Event.mark?,
                  Mark.jobResult?]
              rw [noResult]
              exact allReturned_nil
          | ok value =>
              have first : AllReturned [(job, (Except.ok value : Completion ScriptValue))] := by
                intro item mem
                rw [List.mem_singleton.mp mem]
                exact ⟨value, rfl⟩
              apply (ih changed).mono
              · intro more result final phase
                refine ⟨noLifecycle.append phase.noLifecycle, noScripts.append phase.noScripts,
                  performed.append phase.performed, fifo.append phase.fifo, ?_, ?_, ?_⟩
                · rw [jobResults_append, processedJobs_append, results, processed, List.map_append,
                    phase.named]
                  rfl
                · rw [phase.escapes, escapes_append, ← throws, or_iff_right (not_throws_ok value)]
                · rcases phase.ends with ⟨isOk, returned, isEmpty⟩ |
                    ⟨thrown, earlier, other, isError, rfl, returned⟩
                  · left
                    refine ⟨isOk, ?_, isEmpty⟩
                    rw [jobResults_append, results]
                    exact first.append returned
                  · right
                    refine ⟨thrown, _, other, isError, (List.append_assoc _ _ _).symm, ?_⟩
                    rw [jobResults_append, results]
                    exact first.append returned
              · rintro more ⟨rest, moreFifo, enough⟩
                refine ⟨rest, fifo.append moreFifo, ?_⟩
                rw [processedJobs_append, processed, List.length_append,
                  List.length_singleton]
                omega

/-- A function that runs no script from the command line. -/
def IsInteractive (fuel : ℕ) {α : Type} (driver : Driver World α) : Prop :=
  ∀ state, driver.Traces state
    (fun trace _ changed => NoLifecycle trace ∧ NoScripts trace ∧ Performed trace ∧
      Fifo state.jobQueue trace changed.jobQueue)
    (Stopped fuel state.jobQueue)

variable {fuel : ℕ} {α β : Type}

theorem IsQuiet.isInteractive {driver : Driver World α} (quiet : driver.IsQuiet) :
    IsInteractive fuel driver := by
  intro state
  apply (quiet state).mono
  · intro trace _ changed isQuiet
    exact ⟨isQuiet.noLifecycle, noScripts_of_no_marks isQuiet.noMarks, isQuiet.performed,
      isQuiet.fifo⟩
  · exact fun _ => False.elim

theorem IsInteractive.bind {driver : Driver World α} {next : α → Driver World β}
    (first : IsInteractive fuel driver) (second : ∀ result, IsInteractive fuel (next result)) :
    IsInteractive fuel (driver >>= next) := by
  intro state
  apply (first state).bind
  rintro trace result changed ⟨noLifecycle, noScripts, performed, fifo⟩
  apply (second result changed).mono
  · rintro more _ final ⟨moreNoLifecycle, moreNoScripts, morePerformed, moreFifo⟩
    exact ⟨noLifecycle.append moreNoLifecycle, noScripts.append moreNoScripts,
      performed.append morePerformed, fifo.append moreFifo⟩
  · exact fun more => Stopped.prepend fifo

theorem isInteractive_jerryRunJobs (fuel : ℕ) :
    IsInteractive fuel (jerryRunJobs fuel : Driver World (Completion ScriptValue)) := by
  intro state
  apply (traces_jerryRunJobs fuel state).mono
  · intro trace _ changed phase
    exact ⟨phase.noLifecycle, phase.noScripts, phase.performed, phase.fifo⟩
  · exact fun _ => id

theorem isInteractive_evaluateLine (fuel : ℕ) (line : List UInt8) :
    IsInteractive fuel (evaluateLine fuel line : Driver World (Completion Unit)) := by
  rw [evaluateLine]
  cases valid : jerryValidateString line with
  | false =>
      simp only [Bool.false_eq_true, if_false]
      apply (isQuiet_perform fun _ => ⟨rfl, rfl, rfl, rfl⟩).isInteractive.bind
      intro thrown
      exact (isQuiet_pure _).isInteractive
  | true =>
      simp only [if_true]
      apply (isQuiet_perform fun _ => ⟨rfl, rfl, rfl, rfl⟩).isInteractive.bind
      intro script
      cases script with
      | error thrown => exact (isQuiet_pure _).isInteractive
      | ok script =>
          apply (isQuiet_userCode fun _ => ⟨rfl, rfl, rfl, rfl⟩).isInteractive.bind
          intro value
          cases value with
          | error thrown => exact (isQuiet_pure _).isInteractive
          | ok value =>
              apply (isQuiet_userCode fun _ => ⟨rfl, rfl, rfl, rfl⟩).isInteractive.bind
              intro printed
              cases printed with
              | error thrown => exact (isQuiet_pure _).isInteractive
              | ok _ =>
                  apply (isQuiet_perform fun _ => ⟨rfl, rfl, rfl, rfl⟩).isInteractive.bind
                  intro _
                  apply (isInteractive_jerryRunJobs fuel).bind
                  intro result
                  cases result with
                  | error thrown => exact (isQuiet_pure _).isInteractive
                  | ok value => exact (isQuiet_pure _).isInteractive

theorem isQuiet_jerryxPrintUnhandledException (exception : Thrown) :
    IsQuiet (jerryxPrintUnhandledException exception : Driver World Unit) := by
  intro state
  exact (traces_jerryxPrintUnhandledException exception state).mono (fun _ _ _ => And.left)
    fun _ => id

theorem isInteractive_jerryxRepl (fuel : ℕ) (prompt : CString) (lines : List (List UInt8)) :
    IsInteractive fuel (jerryxRepl fuel prompt lines : Driver World Unit) := by
  induction lines with
  | nil =>
      apply (isQuiet_perform fun _ => ⟨rfl, rfl, rfl, rfl⟩).isInteractive.bind
      intro _
      exact (isQuiet_perform fun _ => ⟨rfl, rfl, rfl, rfl⟩).isInteractive
  | cons line lines ih =>
      apply (isQuiet_perform fun _ => ⟨rfl, rfl, rfl, rfl⟩).isInteractive.bind
      intro _
      split_ifs
      · exact ih
      · apply (isInteractive_evaluateLine fuel line).bind
        intro result
        cases result with
        | error thrown =>
            apply (isQuiet_jerryxPrintUnhandledException thrown).isInteractive.bind
            intro _
            exact ih
        | ok _ => exact ih

end Driver

end Cmsframe
