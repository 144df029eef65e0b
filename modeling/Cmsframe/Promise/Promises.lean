import Cmsframe.Engine.Value
import Mathlib.Logic.Function.Basic

/-!
# Promises and the job queue

The operations of `ecma-promise-object.c` and `ecma-jobqueue.c`. The reactions of a pending
promise are one collection of words. A reaction starts with a tagged pointer, whose bits say
which handlers follow. The value of a `then` property is looked up in the middle of
`ecma_fulfill_promise`. That may run any code, so what comes after it is an operation of its
own. Two fields record what has happened so far, which the engine does not.
-/

namespace Cmsframe

/-- One word in a collection of reactions: a tagged pointer with its three tag bits, or a
handler. -/
inductive ReactionItem where
  | tagged (object : EcmaObject) (first second third : Bool)
  | value (value : EcmaValue)
  deriving DecidableEq

/-- `ecma_promise_object_t`, with the bits of `promise_flags`. -/
structure PromiseObject where
  isPending : Bool
  isFulfilled : Bool
  alreadyResolved : Bool
  result : EcmaValue
  reactions : List ReactionItem
  deriving DecidableEq

/-- The items of the job queue. -/
inductive PromiseJob where
  | reaction (capability : EcmaObject) (handler argument : EcmaValue)
  | asyncReaction (executable : EcmaObject) (argument : EcmaValue) (isRejected : Bool)
  | asyncGenerator (executable : EcmaObject)
  | thenable (promise thenable : EcmaObject) (method : EcmaValue)
  deriving DecidableEq

/-- What is to happen when a promise is settled. -/
inductive Reaction where
  | handlers (capability : EcmaObject) (onFulfilled onRejected : EcmaValue)
  | resume (executable : EcmaObject)
  deriving DecidableEq

/-- `ecma_promise_resolver_t`, with the native handler of the function. -/
structure ResolvingFunction where
  promise : EcmaObject
  isReject : Bool
  deriving DecidableEq

/-- The promises, the resolving functions and the job queue. `registered` are the reactions asked
for so far and `history` are the jobs enqueued so far, each with its promise. -/
structure PromiseContext where
  promises : EcmaObject → Option PromiseObject
  resolvers : EcmaObject → Option ResolvingFunction
  queue : List PromiseJob
  registered : List (EcmaObject × Reaction)
  history : List (Option EcmaObject × PromiseJob)

/-- The assertions of the promise operations. -/
inductive PromiseFault where
  | noPromise
  | notPending
  | resultSet
  | badReactions
  deriving DecidableEq

/-- `ecma_enqueue_job`. -/
def PromiseContext.enqueueJob (context : PromiseContext) (source : Option EcmaObject)
    (job : PromiseJob) : PromiseContext :=
  { context with
    queue := context.queue ++ [job]
    history := context.history ++ [(source, job)] }

/-- `ecma_enqueue_job` for several jobs of one promise. -/
def PromiseContext.enqueueJobs (context : PromiseContext) (source : EcmaObject)
    (jobs : List PromiseJob) : PromiseContext :=
  jobs.foldl (fun context job => context.enqueueJob (some source) job) context

/-- The job for a reaction with handlers. -/
def reactionJob (isReject : Bool) (value : EcmaValue) (capability : EcmaObject)
    (onFulfilled onRejected : EcmaValue) : PromiseJob :=
  .reaction capability (if isReject then onRejected else onFulfilled) value

/-- `ecma_promise_trigger_reactions`. -/
def ecmaPromiseTriggerReactions (value : EcmaValue) (isReject : Bool) :
    List ReactionItem → Except PromiseFault (List PromiseJob)
  | [] => .ok []
  | .tagged object _ _ true :: items =>
      (ecmaPromiseTriggerReactions value isReject items).map fun jobs =>
        .asyncReaction object value isReject :: jobs
  | .tagged object false false false :: items =>
      (ecmaPromiseTriggerReactions value isReject items).map fun jobs =>
        reactionJob isReject value object (.simple .true) (.simple .false) :: jobs
  | .tagged object true false false :: .value onFulfilled :: items =>
      (ecmaPromiseTriggerReactions value isReject items).map fun jobs =>
        reactionJob isReject value object onFulfilled (.simple .false) :: jobs
  | .tagged object false true false :: .value onRejected :: items =>
      (ecmaPromiseTriggerReactions value isReject items).map fun jobs =>
        reactionJob isReject value object (.simple .true) onRejected :: jobs
  | .tagged object true true false :: .value onFulfilled :: .value onRejected :: items =>
      (ecmaPromiseTriggerReactions value isReject items).map fun jobs =>
        reactionJob isReject value object onFulfilled onRejected :: jobs
  | _ => .error .badReactions

/-- `ecma_promise_set_state`, which inverts the bits. -/
def PromiseObject.setState (isFulfilled : Bool) (record : PromiseObject) :
    Except PromiseFault PromiseObject :=
  if record.isPending then
    .ok { record with
      isPending := !record.isPending
      isFulfilled := if isFulfilled then !record.isFulfilled else record.isFulfilled }
  else
    .error .notPending

/-- `ecma_promise_set_result`. -/
def PromiseObject.setResult (result : EcmaValue) (record : PromiseObject) :
    Except PromiseFault PromiseObject :=
  if record.result = .simple .undefined then .ok { record with result } else .error .resultSet

/-- The common end of `ecma_reject_promise` and `ecma_fulfill_promise`. -/
def settlePromise (isFulfilled : Bool) (context : PromiseContext) (promise : EcmaObject)
    (value : EcmaValue) : Except PromiseFault PromiseContext :=
  match context.promises promise with
  | none => .error .noPromise
  | some record => do
      let settled ← (← record.setState isFulfilled).setResult value
      let jobs ← ecmaPromiseTriggerReactions value (!isFulfilled) record.reactions
      let context := context.enqueueJobs promise jobs
      return { context with
        promises := Function.update context.promises promise
          (some { settled with reactions := [] }) }

/-- `ecma_reject_promise`. -/
def ecmaRejectPromise (context : PromiseContext) (promise : EcmaObject) (reason : EcmaValue) :
    Except PromiseFault PromiseContext :=
  settlePromise false context promise reason

/-- What `ecma_fulfill_promise` has come to when it returns, or when it looks up `then`. -/
inductive FulfillProgress where
  | done (context : PromiseContext)
  | lookingUp (thenable : EcmaObject)

/-- The part of `ecma_fulfill_promise` for a pending promise. -/
def fulfillPending (context : PromiseContext) (promise : EcmaObject) (value error : EcmaValue) :
    Except PromiseFault FulfillProgress :=
  if value = .object promise then
    (ecmaRejectPromise context promise error).map .done
  else
    match value with
    | .object thenable => .ok (.lookingUp thenable)
    | _ => (settlePromise true context promise value).map .done

/-- `ecma_fulfill_promise` until the lookup of `then`. `error` is the type error that it would
raise. -/
def ecmaFulfillPromise (context : PromiseContext) (promise : EcmaObject) (value error : EcmaValue) :
    Except PromiseFault FulfillProgress :=
  match context.promises promise with
  | none => .error .noPromise
  | some record =>
      if !record.isPending then .error .notPending
      else fulfillPending context promise value error

section Callable

/- Which objects are callable does not change. -/
variable (callable : EcmaObject → Bool)

/-- `ecma_op_is_callable`. -/
def ecmaOpIsCallable : EcmaValue → Bool
  | .object object => callable object
  | _ => false

/-- The rest of `ecma_fulfill_promise`, with the outcome of the lookup. -/
def ecmaFulfillPromiseThen (context : PromiseContext) (promise thenable : EcmaObject) :
    Except EcmaValue EcmaValue → Except PromiseFault PromiseContext
  | .error exception => ecmaRejectPromise context promise exception
  | .ok method =>
      if ecmaOpIsCallable callable method then
        .ok (context.enqueueJob (some promise) (.thenable promise thenable method))
      else
        settlePromise true context promise (.object thenable)

/-- The handlers as they are kept: `true` is the identity and `false` throws. -/
def keptReaction (capability : EcmaObject) (onFulfilled onRejected : EcmaValue) : Reaction :=
  .handlers capability
    (if ecmaOpIsCallable callable onFulfilled then onFulfilled else .simple .true)
    (if ecmaOpIsCallable callable onRejected then onRejected else .simple .false)

/-- The words a reaction takes up in the collection. -/
def reactionItems : Reaction → List ReactionItem
  | .handlers capability onFulfilled onRejected =>
      .tagged capability (onFulfilled ≠ .simple .true) (onRejected ≠ .simple .false) false ::
        ((if onFulfilled ≠ .simple .true then [.value onFulfilled] else []) ++
          if onRejected ≠ .simple .false then [.value onRejected] else [])
  | .resume executable => [.tagged executable false false true]

/-- The job for a reaction to a settled promise. -/
def settledJob (isFulfilled : Bool) (result : EcmaValue) : Reaction → PromiseJob
  | .handlers capability onFulfilled onRejected =>
      .reaction capability (if isFulfilled then onFulfilled else onRejected) result
  | .resume executable => .asyncReaction executable result (!isFulfilled)

/-- What `ecma_promise_perform_then` and `ecma_promise_async_then` do with a reaction. -/
def addReaction (context : PromiseContext) (promise : EcmaObject) (reaction : Reaction) :
    Except PromiseFault PromiseContext :=
  match context.promises promise with
  | none => .error .noPromise
  | some record =>
      let context :=
        { context with registered := context.registered ++ [(promise, reaction)] }
      if record.isPending then
        .ok { context with
          promises := Function.update context.promises promise
            (some { record with reactions := record.reactions ++ reactionItems reaction }) }
      else
        .ok (context.enqueueJob (some promise) (settledJob record.isFulfilled record.result reaction))

/-- `ecma_promise_perform_then`. -/
def ecmaPromisePerformThen (context : PromiseContext) (promise : EcmaObject)
    (onFulfilled onRejected : EcmaValue) (capability : EcmaObject) :
    Except PromiseFault PromiseContext :=
  addReaction context promise (keptReaction callable capability onFulfilled onRejected)

end Callable

/-- `ecma_promise_async_then`. -/
def ecmaPromiseAsyncThen (context : PromiseContext) (promise executable : EcmaObject) :
    Except PromiseFault PromiseContext :=
  addReaction context promise (.resume executable)

/-- The context with `ECMA_PROMISE_ALREADY_RESOLVED` of a promise set or cleared. -/
def PromiseContext.withFlag (flag : Bool) (context : PromiseContext) (promise : EcmaObject)
    (record : PromiseObject) : PromiseContext :=
  { context with
    promises := Function.update context.promises promise
      (some { record with alreadyResolved := flag }) }

/-- `ecma_reject_promise_with_checks`. -/
def ecmaRejectPromiseWithChecks (context : PromiseContext) (promise : EcmaObject)
    (reason : EcmaValue) : Except PromiseFault PromiseContext :=
  match context.promises promise with
  | none => .error .noPromise
  | some record =>
      if record.alreadyResolved then
        .ok context
      else
        ecmaRejectPromise (context.withFlag true promise record) promise reason

/-- `ecma_fulfill_promise_with_checks` until the lookup of `then`. -/
def ecmaFulfillPromiseWithChecks (context : PromiseContext) (promise : EcmaObject)
    (value error : EcmaValue) : Except PromiseFault (PromiseContext × Option EcmaObject) :=
  match context.promises promise with
  | none => .error .noPromise
  | some record =>
      if record.alreadyResolved then
        .ok (context, none)
      else do
        let context := context.withFlag true promise record
        match ← ecmaFulfillPromise context promise value error with
        | .done context => return (context, none)
        | .lookingUp thenable => return (context, some thenable)

/-- `ecma_promise_run_executor` until the call, with the resolving functions it creates. -/
def createResolvingFunctions (context : PromiseContext) (promise resolve reject : EcmaObject) :
    PromiseContext :=
  { context with
    resolvers := Function.update
      (Function.update context.resolvers resolve (some ⟨promise, false⟩)) reject
      (some ⟨promise, true⟩) }

/-- `ecma_op_create_promise_object` until the executor is called. -/
def createPromise (context : PromiseContext) (promise : EcmaObject) : PromiseContext :=
  { context with
    promises := Function.update context.promises promise
      (some {
        isPending := true
        isFulfilled := false
        alreadyResolved := false
        result := .simple .undefined
        reactions := [] }) }

/-- The start of `ecma_process_promise_resolve_thenable_job`. -/
def allowResolving (context : PromiseContext) (promise : EcmaObject) :
    Except PromiseFault PromiseContext :=
  match context.promises promise with
  | none => .error .noPromise
  | some record => .ok (context.withFlag false promise record)

end Cmsframe
