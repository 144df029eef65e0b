import Cmsframe.Engine.Context
import Cmsframe.Engine.Lit
import Cmsframe.Library.Trace

/-!
# The calls of the driver

What `main` and the functions under it leave to their surroundings: the operating system,
the engine, and the user code of scripts and jobs. User code can enqueue jobs whenever it
runs. A run is recorded as the list of these calls with what came back from them.
-/

namespace Cmsframe

open Interaction

/-- A C string. -/
abbrev CString := List UInt8

/-- An async function or async generator that has been suspended. -/
structure ExecutableObject where
  object : ScriptValue
  /-- `ECMA_OBJECT_CLASS_ASYNC_GENERATOR`, which is called before any job resumes it. -/
  isAsyncGenerator : Bool
  deriving DecidableEq

/-- The items of the job queue, with the values they keep. -/
inductive Job where
  | promiseReaction (capability handler argument : ScriptValue)
  | promiseAsyncReaction (rejected : Bool) (executableObject : ExecutableObject)
      (argument : ScriptValue)
  | promiseAsyncGenerator (executableObject : ScriptValue)
  | promiseThenable (promise thenable thenFunction : ScriptValue)
  deriving DecidableEq

/-- The result of a function that can throw. -/
abbrev Completion (α : Type) := Except Thrown α

/-- `ECMA_IS_VALUE_ERROR`. -/
def Completion.isError {α : Type} : Completion α → Bool
  | .error _ => true
  | .ok _ => false

/-- `jcontext_has_pending_abort`, when a function has returned. -/
def Completion.isAbort {α : Type} : Completion α → Bool
  | .error thrown => thrown.abort
  | .ok _ => false

/-- What comes back from user code: a result, and the jobs it has enqueued. -/
structure Ran (α : Type) where
  result : α
  jobs : List Job

/-- Entry and exit of the functions the record is read by. They have no effect. -/
inductive Mark where
  | execScript (path : CString)
  | execScriptReturns (path : CString) (result : Completion ScriptValue)
  | processJob (job : Job)
  | processJobReturns (job : Job) (result : Completion ScriptValue)
  /-- The call of `jerry_run_jobs` in `main`. -/
  | runJobs

/-- `jerry_log_level_t`. -/
inductive LogLevel where
  | error
  | warning
  | debug
  | trace
  deriving DecidableEq

/-- The calls. -/
inductive Call where
  | mark (mark : Mark)
  /-- `jerry_port_log`, behind `jerry_log`. -/
  | log (level : LogLevel) (message : List UInt8)
  | printHelp (name : Option CString)
  | jerryInit (memStats : Bool)
  /-- `jerryx_register_global`. -/
  | registerGlobal (name : CString)
  | jerryCleanup
  /-- `jerry_port_print_buffer`. -/
  | printBuffer (buffer : List UInt8)
  /-- `jerry_port_source_read`. -/
  | sourceRead (path : CString)
  | throwSz (type : ErrorType) (message : CString)
  | parse (source : List UInt8) (name : Option CString)
  | run (script : ScriptValue)
  /-- `jerryx_print_value`. -/
  | printValue (value : ScriptValue)
  /-- `jerry_value_to_string` and `jerry_string_to_buffer`: what fits into the buffer of the
  string, nothing if the conversion throws. -/
  | describe (value : ScriptValue)
  /-- Reading the property `stack`: the strings in it. -/
  | backtrace (value : ScriptValue)
  /-- `ecma_op_function_call` of the handler of a reaction. -/
  | callHandler (handler argument : ScriptValue)
  /-- The `resolve` and the `reject` function of a capability. -/
  | callResolve (capability argument : ScriptValue)
  | callReject (capability argument : ScriptValue)
  /-- `ecma_process_promise_async_reaction_job` up to the call of
  `opfunc_resume_executable_object`, with `ecma_await_continue`: the value to resume with, or
  nothing if the object goes on waiting. -/
  | awaitContinue (rejected : Bool) (executableObject : ExecutableObject) (argument : ScriptValue)
  /-- `ecma_async_generator_run` up to the call of `opfunc_resume_executable_object`: the value to
  resume with, or nothing if the generator waits for its iterator. -/
  | nextTask (executableObject : ScriptValue)
  /-- The byte code of a resumed object, up to its next `await` or `yield`, for which nothing comes
  back, or to its end. -/
  | resume (executableObject : ExecutableObject) (value : ScriptValue)
  /-- `VM_OC_ASYNC_EXIT`: the promise of an async function, which is settled with the completion. -/
  | asyncExit (executableObject : ExecutableObject) (completion : Completion ScriptValue)
  /-- `ecma_async_generator_finalize`: the promises of a generator are settled. -/
  | asyncGeneratorFinalize (executableObject : ExecutableObject)
      (completion : Completion ScriptValue)
  /-- `ecma_promise_run_executor`. -/
  | runExecutor (promise thenable thenFunction : ScriptValue)
  /-- `ecma_reject_promise_with_checks`. -/
  | rejectPromise (promise reason : ScriptValue)

/-- What a call returns. -/
@[reducible]
def Call.Reply : Call → Type
  | .mark _ | .log .. | .printHelp _ | .jerryInit _ | .registerGlobal _ | .jerryCleanup
  | .printBuffer _ => Unit
  | .sourceRead _ => Option (List UInt8)
  | .throwSz .. => Thrown
  | .parse .. => Completion ScriptValue
  | .run _ | .callHandler .. | .callResolve .. | .callReject .. | .runExecutor .. =>
      Ran (Completion ScriptValue)
  | .awaitContinue .. | .nextTask _ => Ran (Option ScriptValue)
  | .resume .. => Ran (Option (Completion ScriptValue))
  | .asyncExit .. => Ran ScriptValue
  | .asyncGeneratorFinalize .. => Ran Unit
  | .printValue _ => Ran (Completion Unit)
  | .describe _ => Ran CString
  | .backtrace _ => Ran (List (Option CString))
  | .rejectPromise .. => Ran Unit

/-- A call with what came back. -/
abbrev Event := Recorded Call Call.Reply

namespace Event

/-- The jobs enqueued during a call. -/
def enqueued : Event → List Job
  | ⟨.run _, ran⟩ | ⟨.callHandler .., ran⟩ | ⟨.callResolve .., ran⟩ | ⟨.callReject .., ran⟩
  | ⟨.runExecutor .., ran⟩ => Ran.jobs ran
  | ⟨.awaitContinue .., ran⟩ | ⟨.nextTask _, ran⟩ => Ran.jobs ran
  | ⟨.resume .., ran⟩ => Ran.jobs ran
  | ⟨.asyncExit .., ran⟩ => Ran.jobs ran
  | ⟨.asyncGeneratorFinalize .., ran⟩ => Ran.jobs ran
  | ⟨.printValue _, ran⟩ => Ran.jobs ran
  | ⟨.describe _, ran⟩ => Ran.jobs ran
  | ⟨.backtrace _, ran⟩ => Ran.jobs ran
  | ⟨.rejectPromise .., ran⟩ => Ran.jobs ran
  | _ => []

/-- The mark, if the event is one. -/
def mark? : Event → Option Mark
  | ⟨.mark mark, _⟩ => some mark
  | _ => none

/-- The calls `main` makes itself: those that start the engine, set it up and stop it, and
the one of `jerry_run_jobs`. -/
def isLifecycle : Event → Bool
  | ⟨.jerryInit _, _⟩ | ⟨.registerGlobal _, _⟩ | ⟨.mark .runJobs, _⟩ | ⟨.jerryCleanup, _⟩ => true
  | _ => false

/-- The call of `jerry_run_jobs` in `main`. -/
def isRunJobs : Event → Bool
  | ⟨.mark .runJobs, _⟩ => true
  | _ => false

/-- An exception comes back from user code whose result is the result of a job: a `resolve` or
`reject` function throws, or a resumed async function is aborted. What an async function or an
async generator throws settles its promise instead. -/
def isEscape : Event → Bool
  | ⟨.callResolve .., ran⟩ | ⟨.callReject .., ran⟩ => Completion.isError (Ran.result ran)
  | ⟨.resume executableObject _, ran⟩ =>
      match Ran.result ran with
      | some completion => !executableObject.isAsyncGenerator && completion.isAbort
      | none => false
  | _ => false

/-- The calls that are made only while a script is loaded or a job is processed, and the marks of
these. -/
def isPlain : Event → Bool
  | ⟨.mark .runJobs, _⟩ => true
  | ⟨.mark _, _⟩ | ⟨.sourceRead _, _⟩ | ⟨.parse _ (some _), _⟩ | ⟨.callHandler .., _⟩
  | ⟨.callResolve .., _⟩ | ⟨.callReject .., _⟩ | ⟨.awaitContinue .., _⟩ | ⟨.nextTask _, _⟩
  | ⟨.resume .., _⟩ | ⟨.asyncExit .., _⟩ | ⟨.asyncGeneratorFinalize .., _⟩
  | ⟨.runExecutor .., _⟩ | ⟨.rejectPromise .., _⟩ => false
  | _ => true

end Event

end Cmsframe
