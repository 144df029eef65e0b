import Cmsframe.Promise.Promises

/-!
# Programs with promises

The code around promise operations is arbitrary: scripts and the host create promises, add
reactions, call resolving functions and run jobs, from inside handlers and `then` getters too.
A machine has the promises and the calls that are open. Its actions are the entry points of the
operations, in any order. Some promises have no resolving functions. The engine settles them
itself, without checks, and once: those of async functions, async generators and imports.
-/

namespace Cmsframe

/-- A call from inside a promise operation. -/
inductive PromiseFrame where
  /-- The lookup of `then` in `ecma_fulfill_promise`. -/
  | thenLookup (promise thenable : EcmaObject)
  /-- The call in `ecma_promise_run_executor`. -/
  | executor (promise : EcmaObject)
  /-- The call of a handler in `ecma_process_promise_reaction_job`. -/
  | handler (capability : EcmaObject)
  deriving DecidableEq

/-- Who settles a promise: its resolving functions, or the engine without checks. -/
inductive PromiseAccess where
  | resolvers
  | engine
  | settledByEngine
  deriving DecidableEq

/-- `ecma_promise_capabality_t`. Its functions do not change once it is in use. -/
structure PromiseCapability where
  resolve : EcmaObject
  reject : EcmaObject
  deriving DecidableEq

/-- The promises, the open calls, and the jobs that were started. -/
structure PromiseMachine extends PromiseContext where
  frames : List PromiseFrame
  access : EcmaObject → PromiseAccess
  started : List PromiseJob

/-- What a program, the host or the engine does next. `error` is the type error of a promise that
is resolved with itself. -/
inductive PromiseAction where
  | create (promise : EcmaObject) (access : PromiseAccess)
  | construct (promise resolve reject : EcmaObject)
  | performThen (promise : EcmaObject) (onFulfilled onRejected : EcmaValue) (capability : EcmaObject)
  | asyncThen (promise executable : EcmaObject)
  | enqueueAsyncGenerator (executable : EcmaObject)
  | call (function : EcmaObject) (argument error : EcmaValue)
  | jerryPromiseResolve (promise : EcmaObject) (argument error : EcmaValue)
  | jerryPromiseReject (promise : EcmaObject) (argument : EcmaValue)
  | fulfillPromise (promise : EcmaObject) (value error : EcmaValue)
  | rejectPromise (promise : EcmaObject) (reason : EcmaValue)
  | processJob (resolve reject : EcmaObject) (error : EcmaValue)
  | return (completion : Except EcmaValue EcmaValue) (error : EcmaValue)

namespace PromiseMachine

/-- `ecma_fulfill_promise_with_checks`, up to the lookup of `then`. -/
def fulfillWithChecks (machine : PromiseMachine) (promise : EcmaObject) (value error : EcmaValue) :
    Except PromiseFault PromiseMachine := do
  match ← ecmaFulfillPromiseWithChecks machine.toPromiseContext promise value error with
  | (context, none) => return { machine with toPromiseContext := context }
  | (context, some thenable) =>
      return { machine with
        toPromiseContext := context
        frames := .thenLookup promise thenable :: machine.frames }

/-- `ecma_reject_promise_with_checks`. -/
def rejectWithChecks (machine : PromiseMachine) (promise : EcmaObject) (reason : EcmaValue) :
    Except PromiseFault PromiseMachine := do
  let context ← ecmaRejectPromiseWithChecks machine.toPromiseContext promise reason
  return { machine with toPromiseContext := context }

/-- The call of a function, if it is a resolving function. Other functions are what the program
does next. -/
def callFunction (machine : PromiseMachine) (function : EcmaObject) (argument error : EcmaValue) :
    Except PromiseFault PromiseMachine :=
  match machine.resolvers function with
  | none => .ok machine
  | some ⟨promise, false⟩ => machine.fulfillWithChecks promise argument error
  | some ⟨promise, true⟩ => machine.rejectWithChecks promise argument

variable (capabilities : EcmaObject → PromiseCapability)

/-- `ecma_process_promise_reaction_job`, up to the call of a handler. -/
def processReaction (machine : PromiseMachine) (capability : EcmaObject)
    (handler argument error : EcmaValue) : Except PromiseFault PromiseMachine :=
  if handler = .simple .true then
    machine.callFunction (capabilities capability).resolve argument error
  else if handler = .simple .false then
    machine.callFunction (capabilities capability).reject argument error
  else
    .ok { machine with frames := .handler capability :: machine.frames }

/-- One turn of the loop in `ecma_process_all_enqueued_jobs`, up to the call of a handler or of
`then`. -/
def processJob (machine : PromiseMachine) (resolve reject : EcmaObject) (error : EcmaValue) :
    Except PromiseFault PromiseMachine :=
  match machine.queue with
  | [] => .ok machine
  | job :: jobs =>
      let machine := { machine with queue := jobs, started := machine.started ++ [job] }
      match job with
      | .reaction capability handler argument =>
          machine.processReaction capabilities capability handler argument error
      | .asyncReaction _ _ _ => .ok machine
      | .asyncGenerator _ => .ok machine
      | .thenable promise _ _ => do
          let context ← allowResolving machine.toPromiseContext promise
          return { machine with
            toPromiseContext := createResolvingFunctions context promise resolve reject
            frames := .executor promise :: machine.frames
            access := Function.update machine.access promise .resolvers }

variable (callable : EcmaObject → Bool)

/-- What follows a call from inside a promise operation. -/
def returnFrom (machine : PromiseMachine) (frame : PromiseFrame)
    (completion : Except EcmaValue EcmaValue) (error : EcmaValue) :
    Except PromiseFault PromiseMachine :=
  match frame with
  | .thenLookup promise thenable => do
      let context ← ecmaFulfillPromiseThen callable machine.toPromiseContext promise thenable
        completion
      return { machine with toPromiseContext := context }
  | .executor promise =>
      match completion with
      | .ok _ => .ok machine
      | .error exception => machine.rejectWithChecks promise exception
  | .handler capability =>
      match completion with
      | .ok value => machine.callFunction (capabilities capability).resolve value error
      | .error exception => machine.callFunction (capabilities capability).reject exception error

/-- One action. -/
def perform (machine : PromiseMachine) : PromiseAction → Except PromiseFault PromiseMachine
  | .create promise access =>
      .ok { machine with
        toPromiseContext := createPromise machine.toPromiseContext promise
        access := Function.update machine.access promise access }
  | .construct promise resolve reject =>
      .ok { machine with
        toPromiseContext :=
          createResolvingFunctions (createPromise machine.toPromiseContext promise) promise resolve
            reject
        frames := .executor promise :: machine.frames
        access := Function.update machine.access promise .resolvers }
  | .performThen promise onFulfilled onRejected capability => do
      let context ← ecmaPromisePerformThen callable machine.toPromiseContext promise onFulfilled
        onRejected capability
      return { machine with toPromiseContext := context }
  | .asyncThen promise executable => do
      let context ← ecmaPromiseAsyncThen machine.toPromiseContext promise executable
      return { machine with toPromiseContext := context }
  | .enqueueAsyncGenerator executable =>
      .ok { machine with
        toPromiseContext := machine.toPromiseContext.enqueueJob none (.asyncGenerator executable) }
  | .call function argument error => machine.callFunction function argument error
  | .jerryPromiseResolve promise argument error => machine.fulfillWithChecks promise argument error
  | .jerryPromiseReject promise argument => machine.rejectWithChecks promise argument
  | .fulfillPromise promise value error => do
      let machine := { machine with
        access := Function.update machine.access promise .settledByEngine }
      match ← ecmaFulfillPromise machine.toPromiseContext promise value error with
      | .done context => return { machine with toPromiseContext := context }
      | .lookingUp thenable =>
          return { machine with frames := .thenLookup promise thenable :: machine.frames }
  | .rejectPromise promise reason => do
      let machine := { machine with
        access := Function.update machine.access promise .settledByEngine }
      let context ← ecmaRejectPromise machine.toPromiseContext promise reason
      return { machine with toPromiseContext := context }
  | .processJob resolve reject error => machine.processJob capabilities resolve reject error
  | .return completion error =>
      match machine.frames with
      | [] => .ok machine
      | frame :: frames =>
          { machine with frames }.returnFrom capabilities callable frame completion error

end PromiseMachine

end Cmsframe
