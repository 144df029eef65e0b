import Cmsframe.Main.Calls

/-!
# The driver

`main` of `cms.c` with the functions it is built from: loading and running a script, the
queue of jobs, the interactive loop, and the report of an unhandled exception. The loop
over the jobs is bounded by `fuel`; the standard input of the interactive loop is a list
of lines.
-/

namespace Cmsframe

open Interaction

/-- The log level, and the job queue with its head first. -/
structure DriverState where
  logLevel : LogLevel
  jobQueue : List Job

/-- A function of the driver. -/
abbrev Driver (World α : Type) := Routine Fault Call Call.Reply DriverState World α

/-- The number of a log level. -/
def LogLevel.toNat : LogLevel → ℕ
  | .error => 0
  | .warning => 1
  | .debug => 2
  | .trace => 3

namespace Driver

variable {World : Type}

def perform (call : Call) : Driver World call.Reply := Routine.perform call

def mark (mark : Mark) : Driver World Unit := perform (.mark mark)

/-- `jerry_log`. -/
def jerryLog (level : LogLevel) (message : List UInt8) : Driver World Unit := do
  let state ← Routine.get
  if level.toNat ≤ state.logLevel.toNat then
    perform (.log level message)
  else
    return ()

/-- `jerry_log_set_level`. -/
def jerryLogSetLevel (level : LogLevel) : Driver World Unit := do
  let state ← Routine.get
  Routine.set { state with logLevel := level }

/-- `ecma_enqueue_job`. -/
def ecmaEnqueueJob (job : Job) : Driver World Unit := do
  let state ← Routine.get
  Routine.set { state with jobQueue := state.jobQueue ++ [job] }

/-- Enqueue jobs one after the other. -/
def enqueueAll : List Job → Driver World Unit
  | [] => return ()
  | job :: jobs => do
      ecmaEnqueueJob job
      enqueueAll jobs

/-- A call that runs user code. -/
def userCode {α : Type} (call : Call) (ran : call.Reply → Ran α) : Driver World α := do
  let reply ← perform call
  enqueueAll (ran reply).jobs
  return (ran reply).result

/-- `jerry_string` of a buffer, with its assertion that the buffer is valid UTF-8. -/
def jerryString (buffer : List UInt8) : Driver World Unit :=
  if jerryValidateString buffer then return () else Routine.fail .assertion

/-- `jerryx_source_parse_script`. The name is not validated before `jerry_string` is called. -/
def jerryxSourceParseScript (path : CString) : Driver World (Completion ScriptValue) := do
  match ← perform (.sourceRead path) with
  | none =>
      jerryLog .error (asciiBytes "Failed to open file: " ++ path ++ asciiBytes "\n")
      return .error (← perform (.throwSz .syntaxError (asciiBytes "Source file not found")))
  | some source =>
      if jerryValidateString source then
        jerryString path
        perform (.parse source (some path))
      else
        return .error (← perform
          (.throwSz .syntaxError (asciiBytes "Input is not a valid UTF-8 encoded string.")))

/-- `jerryx_source_exec_script`, between the marks. -/
def parseAndRun (path : CString) : Driver World (Completion ScriptValue) := do
  match ← jerryxSourceParseScript path with
  | .error thrown => return .error thrown
  | .ok script => userCode (.run script) id

/-- `jerryx_source_exec_script`. -/
def jerryxSourceExecScript (path : CString) : Driver World (Completion ScriptValue) := do
  mark (.execScript path)
  let result ← parseAndRun path
  mark (.execScriptReturns path result)
  return result

/-- The report of an exception whose text has been copied to the buffer. -/
def unhandledException (text : CString) : List UInt8 :=
  asciiBytes "Unhandled exception: " ++ text ++ asciiBytes "\n"

/-- The loop over the backtrace. -/
def logBacktrace : ℕ → List (Option CString) → Driver World Unit
  | _, [] => return ()
  | index, item :: items => do
      match item with
      | some text =>
          jerryLog .error (asciiBytes " " ++ Decimal.decimal index ++ asciiBytes ": " ++ text ++
            asciiBytes "\n")
      | none => pure ()
      logBacktrace (index + 1) items

/-- `jerryx_print_unhandled_exception`, without the excerpt of the source behind a syntax error. -/
def jerryxPrintUnhandledException (exception : Thrown) : Driver World Unit := do
  let text ← userCode (.describe exception.thrown) id
  jerryLog .error (unhandledException text)
  if exception.thrown.value.isObject then
    let items ← userCode (.backtrace exception.thrown) id
    logBacktrace 0 (items.take 32)

/-- `ecma_process_promise_reaction_job`: the handlers true and false stand for the identity
and for the function that throws its argument. -/
def ecmaProcessPromiseReactionJob (capability handler argument : ScriptValue) :
    Driver World (Completion ScriptValue) := do
  let handlerResult ← (
    if handler.value = .simple .true ∨ handler.value = .simple .false then
      return .ok argument
    else
      userCode (.callHandler handler argument) id : Driver World (Completion ScriptValue))
  match handlerResult with
  | .error thrown => userCode (.callReject capability thrown.thrown) id
  | .ok value =>
      if handler.value = .simple .false then
        userCode (.callReject capability value) id
      else
        userCode (.callResolve capability value) id

/-- `opfunc_resume_executable_object`: whether the object is completed then, and the result. The
byte code of an async function runs in a `try` context that ends with `VM_OC_ASYNC_EXIT`, which
only an abort leaves. -/
def opfuncResumeExecutableObject (executableObject : ExecutableObject) (value : ScriptValue) :
    Driver World (Bool × Completion ScriptValue) := do
  match ← userCode (.resume executableObject value) id with
  | none => return (false, .ok .undefined)
  | some completion =>
      if executableObject.isAsyncGenerator ∨ completion.isAbort then
        return (true, completion)
      else
        let promise ← userCode (.asyncExit executableObject completion) id
        return (true, .ok promise)

/-- `ecma_process_promise_async_reaction_job`. -/
def ecmaProcessPromiseAsyncReactionJob (rejected : Bool) (executableObject : ExecutableObject)
    (argument : ScriptValue) : Driver World (Completion ScriptValue) := do
  match ← userCode (.awaitContinue rejected executableObject argument) id with
  | none => return .ok .undefined
  | some value =>
      let (completed, result) ← opfuncResumeExecutableObject executableObject value
      if completed ∧ executableObject.isAsyncGenerator then
        userCode (.asyncGeneratorFinalize executableObject result) id
        return .ok .undefined
      else
        return result

/-- `ecma_async_generator_run`. -/
def ecmaAsyncGeneratorRun (executableObject : ScriptValue) :
    Driver World (Completion ScriptValue) := do
  match ← userCode (.nextTask executableObject) id with
  | none => return .ok .undefined
  | some value =>
      let (completed, result) ← opfuncResumeExecutableObject ⟨executableObject, true⟩ value
      if completed then
        userCode (.asyncGeneratorFinalize ⟨executableObject, true⟩ result) id
        return .ok .undefined
      else
        return result

/-- `ecma_process_promise_resolve_thenable_job`: what the executor throws rejects the
promise. -/
def ecmaProcessPromiseResolveThenableJob (promise thenable thenFunction : ScriptValue) :
    Driver World (Completion ScriptValue) := do
  match ← userCode (.runExecutor promise thenable thenFunction) id with
  | .ok value => return .ok value
  | .error thrown =>
      userCode (.rejectPromise promise thrown.thrown) id
      return .ok .undefined

/-- The `switch` over the types of jobs. -/
def processJob : Job → Driver World (Completion ScriptValue)
  | .promiseReaction capability handler argument =>
      ecmaProcessPromiseReactionJob capability handler argument
  | .promiseAsyncReaction rejected executableObject argument =>
      ecmaProcessPromiseAsyncReactionJob rejected executableObject argument
  | .promiseAsyncGenerator executableObject => ecmaAsyncGeneratorRun executableObject
  | .promiseThenable promise thenable thenFunction =>
      ecmaProcessPromiseResolveThenableJob promise thenable thenFunction

/-- One turn of the loop over the jobs. -/
def takeJob (job : Job) (jobs : List Job) : Driver World (Completion ScriptValue) := do
  let state ← Routine.get
  Routine.set { state with jobQueue := jobs }
  mark (.processJob job)
  let result ← processJob job
  mark (.processJobReturns job result)
  return result

/-- `ecma_process_all_enqueued_jobs`. -/
def ecmaProcessAllEnqueuedJobs : ℕ → Driver World (Completion ScriptValue)
  | 0 => do
      let state ← Routine.get
      match state.jobQueue with
      | [] => return .ok .undefined
      | _ :: _ => Routine.fail .outOfFuel
  | fuel + 1 => do
      let state ← Routine.get
      match state.jobQueue with
      | [] => return .ok .undefined
      | job :: jobs =>
          match ← takeJob job jobs with
          | .error thrown => return .error thrown
          | .ok _ => ecmaProcessAllEnqueuedJobs fuel

/-- `jerry_run_jobs`. -/
def jerryRunJobs (fuel : ℕ) : Driver World (Completion ScriptValue) :=
  ecmaProcessAllEnqueuedJobs fuel

/-- One line of the interactive loop, up to the label `exception`. -/
def evaluateLine (fuel : ℕ) (line : List UInt8) : Driver World (Completion Unit) := do
  if jerryValidateString line then
    match ← perform (.parse line none) with
    | .error thrown => return .error thrown
    | .ok script =>
        match ← userCode (.run script) id with
        | .error thrown => return .error thrown
        | .ok value =>
            match ← userCode (.printValue value) id with
            | .error thrown => return .error thrown
            | .ok _ =>
                perform (.printBuffer (asciiBytes "\n"))
                match ← jerryRunJobs fuel with
                | .error thrown => return .error thrown
                | .ok _ => return .ok ()
  else
    return .error (← perform
      (.throwSz .syntaxError (asciiBytes "Input is not a valid UTF-8 string")))

/-- `jerryx_repl`. -/
def jerryxRepl (fuel : ℕ) (prompt : CString) : List (List UInt8) → Driver World Unit
  | [] => do
      perform (.printBuffer prompt)
      perform (.printBuffer (asciiBytes "\n"))
  | line :: lines => do
      perform (.printBuffer prompt)
      if line.length = 0 then
        jerryxRepl fuel prompt lines
      else
        match ← evaluateLine fuel line with
        | .error thrown => jerryxPrintUnhandledException thrown
        | .ok () => pure ()
        jerryxRepl fuel prompt lines

/-- `JERRY_STANDALONE_EXIT_CODE_OK` and `JERRY_STANDALONE_EXIT_CODE_FAIL`. -/
def exitCodeOk : ℕ := 0

def exitCodeFail : ℕ := 1

/-- `JERRY_MAX_COMMAND_LINE_ARGS`. -/
def maxCommandLineArgs : ℕ := 16

/-- The operand of `--log-level`: one of the characters from 0 to 3. -/
def logLevelOperand (operand : CString) : Option LogLevel :=
  match operand with
  | [0x30] => some .error
  | [0x31] => some .warning
  | [0x32] => some .debug
  | [0x33] => some .trace
  | _ => none

/-- What an argument is for. -/
inductive ArgumentKind where
  | help
  | memStats
  | logLevel
  | fileName

/-- The comparisons of an argument with the options. -/
def argumentKind (argument : CString) : ArgumentKind :=
  if argument = asciiBytes "-h" ∨ argument = asciiBytes "--help" then
    .help
  else if argument = asciiBytes "--mem-stats" then
    .memStats
  else if argument = asciiBytes "--log-level" then
    .logLevel
  else
    .fileName

/-- The loop over the arguments. It yields the exit code if `main` leaves here, and otherwise
`JERRY_INIT_MEM_STATS` and the file names. -/
def parseOptions (name : Option CString) (memStats : Bool) (files : List CString) :
    List CString → Driver World (Except ℕ (Bool × List CString))
  | [] => return .ok (memStats, files)
  | argument :: arguments =>
      match argumentKind argument with
      | .help => do
          perform (.printHelp name)
          return .error exitCodeOk
      | .memStats => do
          jerryLogSetLevel .debug
          parseOptions name true files arguments
      | .logLevel =>
          match arguments with
          | operand :: arguments =>
              match logLevelOperand operand with
              | some level => do
                  jerryLogSetLevel level
                  parseOptions name memStats files arguments
              | none => do
                  jerryLog .error (asciiBytes "Error: wrong format or invalid argument\n")
                  return .error exitCodeFail
          | [] => do
              jerryLog .error (asciiBytes "Error: wrong format or invalid argument\n")
              return .error exitCodeFail
      | .fileName => parseOptions name memStats (files ++ [argument]) arguments

/-- The loop over the files. -/
def execScripts : List CString → Driver World ℕ
  | [] => return exitCodeOk
  | file :: files => do
      match ← jerryxSourceExecScript file with
      | .error thrown =>
          jerryxPrintUnhandledException thrown
          return exitCodeFail
      | .ok _ => execScripts files

/-- The part of `main` before `jerry_init`. -/
def optionPhase (argv : List CString) : Driver World (Except ℕ (Bool × List CString)) := do
  if maxCommandLineArgs < argv.length then
    jerryLog .error (asciiBytes
      "Too many command line arguments. Current maximum is 16\n")
    return .error exitCodeFail
  else
    parseOptions argv.head? false [] argv.tail

/-- The part of `main` from `jerry_init` on. -/
def runPhase (fuel : ℕ) (lines : List (List UInt8)) (memStats : Bool) (files : List CString) :
    Driver World ℕ := do
  perform (.jerryInit memStats)
  perform (.registerGlobal (asciiBytes "assert"))
  perform (.registerGlobal (asciiBytes "print"))
  perform (.registerGlobal (asciiBytes "pp"))
  let retCode ← (
    if files.length = 0 then do
      jerryxRepl fuel (asciiBytes "jerry> ") lines
      return exitCodeOk
    else
      execScripts files : Driver World ℕ)
  mark .runJobs
  let retValue ← jerryRunJobs fuel
  let retCode := match retValue with
    | .error _ => exitCodeFail
    | .ok _ => retCode
  perform .jerryCleanup
  return retCode

/-- `main`. -/
def main (fuel : ℕ) (lines : List (List UInt8)) (argv : List CString) : Driver World ℕ := do
  match ← optionPhase argv with
  | .error exitCode => return exitCode
  | .ok (memStats, files) => runPhase fuel lines memStats files

/-- What `main` starts with. -/
def initialState : DriverState where
  logLevel := .error
  jobQueue := []

end Driver

end Cmsframe
