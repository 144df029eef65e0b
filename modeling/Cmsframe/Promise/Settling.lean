import Cmsframe.Promise.Machine

/-!
# Promises are settled once

In every run of a machine the assertions of the promise operations hold, a promise that is
settled stays as it is, and each reaction gets one job. An operation is about one promise. So
the invariant is a statement on what belongs to one promise, and each operation has a lemma that
says how it changes this for its promise and that the other promises are left alone.
-/

namespace Cmsframe

/-- The queued jobs that go on with the resolution of a promise. -/
def PromiseJob.resolves (promise : EcmaObject) : PromiseJob → Bool
  | .thenable other _ _ => other = promise
  | _ => false

/-- The jobs that start a reaction. -/
def PromiseJob.isReaction : PromiseJob → Bool
  | .reaction _ _ _ => true
  | .asyncReaction _ _ _ => true
  | .asyncGenerator _ => false
  | .thenable _ _ _ => false

/-- The reactions asked for at a promise, in this order. -/
def PromiseContext.registeredAt (context : PromiseContext) (promise : EcmaObject) :
    List Reaction :=
  (context.registered.filter fun entry => entry.1 = promise).map Prod.snd

/-- The reaction jobs enqueued so far for a promise, in this order. -/
def PromiseContext.delivered (context : PromiseContext) (promise : EcmaObject) :
    List PromiseJob :=
  (context.history.filter fun entry => entry.1 = some promise ∧ entry.2.isReaction).map Prod.snd

/-- What belongs to one promise. -/
structure PromiseView where
  record : Option PromiseObject
  resolutions : ℕ
  registered : List Reaction
  delivered : List PromiseJob

/-- What belongs to one promise, outside the open calls. -/
def PromiseContext.view (context : PromiseContext) (promise : EcmaObject) : PromiseView where
  record := context.promises promise
  resolutions := context.queue.countP (PromiseJob.resolves promise)
  registered := context.registeredAt promise
  delivered := context.delivered promise

/-- An operation on one promise: the others are left alone, and the queue gets the jobs that are
recorded. -/
structure ActsOn (promise : EcmaObject) (context after : PromiseContext) : Prop where
  others : ∀ other, other ≠ promise → after.view other = context.view other
  resolvers : after.resolvers = context.resolvers
  enqueues : ∃ jobs, after.queue = context.queue ++ jobs ∧
    after.history.map Prod.snd = context.history.map Prod.snd ++ jobs

variable {context middle after : PromiseContext} {promise : EcmaObject} {record : PromiseObject}

theorem ActsOn.refl (promise : EcmaObject) (context : PromiseContext) :
    ActsOn promise context context where
  others _ _ := rfl
  resolvers := rfl
  enqueues := ⟨[], (List.append_nil _).symm, (List.append_nil _).symm⟩

theorem ActsOn.trans (first : ActsOn promise context middle)
    (second : ActsOn promise middle after) : ActsOn promise context after where
  others other isOther := (second.others other isOther).trans (first.others other isOther)
  resolvers := second.resolvers.trans first.resolvers
  enqueues := by
    rcases first.enqueues with ⟨jobs, queue, history⟩
    rcases second.enqueues with ⟨later, laterQueue, laterHistory⟩
    refine ⟨jobs ++ later, ?_, ?_⟩
    · rw [laterQueue, queue, List.append_assoc]
    · rw [laterHistory, history, List.append_assoc]

/-- The record of a promise is changed. -/
theorem actsOn_update (context : PromiseContext) (promise : EcmaObject)
    (record : Option PromiseObject) :
    ActsOn promise context
      { context with promises := Function.update context.promises promise record } where
  others other isOther := by
    simp [PromiseContext.view, PromiseContext.registeredAt, PromiseContext.delivered, isOther]
  resolvers := rfl
  enqueues := ⟨[], (List.append_nil _).symm, (List.append_nil _).symm⟩

theorem view_update (context : PromiseContext) (promise : EcmaObject)
    (record : Option PromiseObject) :
    PromiseContext.view
        { context with promises := Function.update context.promises promise record } promise =
      { context.view promise with record } := by
  simp [PromiseContext.view, PromiseContext.registeredAt, PromiseContext.delivered]

/-- A job is enqueued for a promise. -/
theorem actsOn_enqueueJob (context : PromiseContext) (promise : EcmaObject) (job : PromiseJob)
    (own : ∀ other, job.resolves other = true → other = promise) :
    ActsOn promise context (context.enqueueJob (some promise) job) where
  others other isOther := by
    have notResolved : job.resolves other = false := by
      by_contra resolved
      exact isOther (own other (by simpa using resolved))
    simp [PromiseContext.view, PromiseContext.registeredAt, PromiseContext.delivered,
      PromiseContext.enqueueJob, notResolved, Ne.symm isOther]
  resolvers := rfl
  enqueues := ⟨[job], rfl, by simp [PromiseContext.enqueueJob]⟩

theorem view_enqueueJob (context : PromiseContext) (promise : EcmaObject) (job : PromiseJob) :
    (context.enqueueJob (some promise) job).view promise =
      { context.view promise with
        resolutions := (context.view promise).resolutions +
          if job.resolves promise then 1 else 0
        delivered := (context.view promise).delivered ++ if job.isReaction then [job] else [] } := by
  by_cases isReaction : job.isReaction = true <;>
    simp [PromiseContext.view, PromiseContext.registeredAt, PromiseContext.delivered,
      PromiseContext.enqueueJob, isReaction, List.countP_append, List.filter_append,
      List.countP_singleton]

/-- Reaction jobs are enqueued for a promise. -/
theorem enqueueJobs_spec (context : PromiseContext) (promise : EcmaObject) {jobs : List PromiseJob}
    (areReactions : ∀ job ∈ jobs, job.isReaction = true) :
    ActsOn promise context (context.enqueueJobs promise jobs) ∧
      (context.enqueueJobs promise jobs).view promise =
        { context.view promise with delivered := (context.view promise).delivered ++ jobs } := by
  induction jobs generalizing context with
  | nil => exact ⟨ActsOn.refl promise context, by simp [PromiseContext.enqueueJobs]⟩
  | cons job jobs ih =>
      have isReaction := areReactions job List.mem_cons_self
      have notResolving : ∀ other, job.resolves other = false := by
        cases job <;> simp_all [PromiseJob.isReaction, PromiseJob.resolves]
      rcases ih (context.enqueueJob (some promise) job)
        (fun other mem => areReactions other (List.mem_cons_of_mem job mem)) with ⟨acts, view⟩
      have first := actsOn_enqueueJob context promise job fun other resolved => by
        rw [notResolving] at resolved
        cases resolved
      refine ⟨first.trans acts, ?_⟩
      rw [PromiseContext.enqueueJobs, List.foldl_cons, ← PromiseContext.enqueueJobs, view,
        view_enqueueJob]
      simp [notResolving, isReaction]

theorem settledJob_isReaction (isFulfilled : Bool) (result : EcmaValue) (reaction : Reaction) :
    (settledJob isFulfilled result reaction).isReaction = true := by
  cases reaction <;> rfl

/-- The collection gives back the reactions that were put into it. -/
theorem ecmaPromiseTriggerReactions_items (isFulfilled : Bool) (value : EcmaValue)
    (reactions : List Reaction) :
    ecmaPromiseTriggerReactions value (!isFulfilled) (reactions.flatMap reactionItems) =
      .ok (reactions.map (settledJob isFulfilled value)) := by
  induction reactions with
  | nil => rfl
  | cons reaction reactions ih =>
      rw [List.flatMap_cons, List.map_cons]
      cases reaction with
      | resume executable =>
          rw [reactionItems, List.singleton_append, ecmaPromiseTriggerReactions, ih]
          rfl
      | handlers capability onFulfilled onRejected =>
          by_cases isIdentity : onFulfilled = .simple .true <;>
            by_cases isThrower : onRejected = .simple .false <;>
            simp [reactionItems, isIdentity, isThrower, ecmaPromiseTriggerReactions, ih,
              Except.map, reactionJob, settledJob] <;>
            cases isFulfilled <;> rfl

/-- The record of a promise that is settled. -/
def PromiseObject.settle (isFulfilled : Bool) (result : EcmaValue) (record : PromiseObject) :
    PromiseObject :=
  { record with isPending := false, isFulfilled, result, reactions := [] }

/-- What is needed of a pending promise to settle it. -/
structure PromiseObject.Settles (registered : List Reaction) (record : PromiseObject) : Prop where
  isPending : record.isPending = true
  isFulfilled : record.isFulfilled = false
  result : record.result = .simple .undefined
  reactions : record.reactions = registered.flatMap reactionItems

/-- Settling a pending promise enqueues a job for each reaction. -/
theorem settlePromise_spec (context : PromiseContext) (isFulfilled : Bool) (value : EcmaValue)
    (isRecord : context.promises promise = some record)
    (settles : record.Settles (context.registeredAt promise)) :
    ∃ after, settlePromise isFulfilled context promise value = .ok after ∧
      ActsOn promise context after ∧
      after.view promise =
        { context.view promise with
          record := some (record.settle isFulfilled value)
          delivered := (context.view promise).delivered ++
            (context.registeredAt promise).map (settledJob isFulfilled value) } := by
  have areReactions : ∀ job ∈ (context.registeredAt promise).map (settledJob isFulfilled value),
      job.isReaction = true := by
    intro job mem
    rcases List.mem_map.mp mem with ⟨reaction, _, rfl⟩
    exact settledJob_isReaction isFulfilled value reaction
  rcases enqueueJobs_spec context promise areReactions with ⟨acts, view⟩
  refine ⟨{ context.enqueueJobs promise
      ((context.registeredAt promise).map (settledJob isFulfilled value)) with
        promises := Function.update _ promise (some (record.settle isFulfilled value)) }, ?_,
    acts.trans (actsOn_update _ promise _), ?_⟩
  · rw [settlePromise, isRecord]
    simp only [PromiseObject.setState, settles.isPending, if_true, PromiseObject.setResult,
      settles.result, settles.reactions, ecmaPromiseTriggerReactions_items, bind, Except.bind,
      pure, Except.pure, settles.isFulfilled]
    cases isFulfilled <;> rfl
  · rw [view_update, view]

/-- Whether the resolution of a promise has begun. -/
def isClaimed (access : PromiseAccess) (record : PromiseObject) : Bool :=
  match access with
  | .resolvers => record.alreadyResolved
  | .engine => false
  | .settledByEngine => true

/-- What holds of a promise between two actions: nothing has begun, or one resolution is open, or
it is settled and its reactions have their jobs. -/
structure PromiseView.RecordHolds (access : PromiseAccess) (view : PromiseView)
    (record : PromiseObject) : Prop where
  pending : record.isPending = true → record.Settles view.registered ∧ view.delivered = []
  settled : record.isPending = false → isClaimed access record = true ∧
    view.delivered = view.registered.map (settledJob record.isFulfilled record.result)
  resolutions : view.resolutions =
    if record.isPending = true ∧ isClaimed access record = true then 1 else 0

/-- What holds of an object, be it a promise or not. -/
def PromiseView.Holds (access : PromiseAccess) (view : PromiseView) : Prop :=
  match view.record with
  | none => view.resolutions = 0 ∧ view.registered = [] ∧ view.delivered = []
  | some record => view.RecordHolds access record

/-- A promise that is settled stays as it is. -/
def PromiseObject.Persists (record later : PromiseObject) : Prop :=
  record.isPending = false → later.isPending = false ∧ later.isFulfilled = record.isFulfilled ∧
    later.result = record.result

theorem PromiseObject.Persists.refl (record : PromiseObject) : record.Persists record :=
  fun isSettled => ⟨isSettled, rfl, rfl⟩

namespace PromiseMachine

/-- The open lookups of `then` for a promise. -/
def looksUp (promise : EcmaObject) : PromiseFrame → Bool
  | .thenLookup other _ => other = promise
  | _ => false

/-- What belongs to one promise, with the open calls. -/
def view (machine : PromiseMachine) (promise : EcmaObject) : PromiseView :=
  { machine.toPromiseContext.view promise with
    resolutions := (machine.toPromiseContext.view promise).resolutions +
      machine.frames.countP (looksUp promise) }

/-- What holds between two actions. -/
structure Holds (machine : PromiseMachine) : Prop where
  views : ∀ promise, (machine.view promise).Holds (machine.access promise)
  resolvers : ∀ function resolver, machine.resolvers function = some resolver →
    machine.promises resolver.promise ≠ none ∧ machine.access resolver.promise = .resolvers
  executors : ∀ promise, .executor promise ∈ machine.frames →
    machine.promises promise ≠ none ∧ machine.access promise = .resolvers
  queue : machine.history.map Prod.snd = machine.started ++ machine.queue

/-- What an action does: the machine holds again, and promises stay as they are once settled. -/
structure Next (machine after : PromiseMachine) : Prop where
  holds : after.Holds
  persists : ∀ promise record, machine.promises promise = some record →
    ∃ later, after.promises promise = some later ∧ record.Persists later

variable {machine after : PromiseMachine} {promise : EcmaObject} {record : PromiseObject}

theorem Next.trans {middle : PromiseMachine} (first : Next machine middle)
    (second : Next middle after) : Next machine after where
  holds := second.holds
  persists promise record isRecord := by
    rcases first.persists promise record isRecord with ⟨middleRecord, isMiddle, keeps⟩
    rcases second.persists promise middleRecord isMiddle with ⟨later, isLater, keepsLater⟩
    refine ⟨later, isLater, fun isSettled => ?_⟩
    rcases keeps isSettled with ⟨middleSettled, sameState, sameResult⟩
    rcases keepsLater middleSettled with ⟨laterSettled, laterState, laterResult⟩
    exact ⟨laterSettled, laterState.trans sameState, laterResult.trans sameResult⟩

theorem Holds.next_refl (holds : machine.Holds) : Next machine machine where
  holds := holds
  persists _ record isRecord := ⟨record, isRecord, PromiseObject.Persists.refl record⟩

theorem Holds.recordHolds (holds : machine.Holds) (isRecord : machine.promises promise = some record) :
    (machine.view promise).RecordHolds (machine.access promise) record := by
  have viewHolds := holds.views promise
  rwa [PromiseView.Holds, show (machine.view promise).record = some record from isRecord]
    at viewHolds

/-- An action that no promise has to do with. -/
theorem Holds.unchanged (holds : machine.Holds)
    (views : ∀ other, after.view other = machine.view other)
    (resolvers : after.resolvers = machine.resolvers)
    (executors : ∀ other, .executor other ∈ after.frames → .executor other ∈ machine.frames)
    (access : after.access = machine.access)
    (queue : after.history.map Prod.snd = after.started ++ after.queue) : Next machine after := by
  have records : after.promises = machine.promises :=
    funext fun other => congrArg PromiseView.record (views other)
  refine ⟨⟨?_, ?_, ?_, queue⟩, ?_⟩
  · intro other
    rw [views other, access]
    exact holds.views other
  · intro function resolver isResolver
    rw [resolvers] at isResolver
    rw [records, access]
    exact holds.resolvers function resolver isResolver
  · intro other mem
    rw [records, access]
    exact holds.executors other (executors other mem)
  · intro other record isRecord
    rw [records]
    exact ⟨record, isRecord, PromiseObject.Persists.refl record⟩

/-- An action on one promise, given what it does to this promise. -/
theorem Holds.nextOf (holds : machine.Holds) (isRecord : machine.promises promise = some record)
    (others : ∀ other, other ≠ promise → after.view other = machine.view other)
    (resolvers : after.resolvers = machine.resolvers)
    (queue : after.history.map Prod.snd = after.started ++ after.queue)
    (executors : ∀ other, .executor other ∈ after.frames → .executor other ∈ machine.frames)
    (access : ∀ other, other ≠ promise → after.access other = machine.access other)
    (opened : machine.access promise = .resolvers → after.access promise = .resolvers)
    {later : PromiseObject} (isLater : after.promises promise = some later)
    (laterHolds : (after.view promise).RecordHolds (after.access promise) later)
    (persists : record.Persists later) : Next machine after := by
  have records : ∀ other, other ≠ promise → after.promises other = machine.promises other :=
    fun other isOther => congrArg PromiseView.record (others other isOther)
  have open' : ∀ other, machine.promises other ≠ none ∧ machine.access other = .resolvers →
      after.promises other ≠ none ∧ after.access other = .resolvers := by
    rintro other ⟨known, isOpen⟩
    by_cases same : other = promise
    · subst same
      exact ⟨by rw [isLater]; simp, opened isOpen⟩
    · rw [records other same, access other same]
      exact ⟨known, isOpen⟩
  refine ⟨⟨?_, ?_, ?_, queue⟩, ?_⟩
  · intro other
    by_cases same : other = promise
    · subst same
      rw [PromiseView.Holds, show (after.view other).record = some later from isLater]
      exact laterHolds
    · rw [others other same, access other same]
      exact holds.views other
  · intro function resolver isResolver
    rw [resolvers] at isResolver
    exact open' _ (holds.resolvers function resolver isResolver)
  · exact fun other mem => open' other (holds.executors other (executors other mem))
  · intro other otherRecord isOtherRecord
    by_cases same : other = promise
    · subst same
      rw [isRecord] at isOtherRecord
      cases isOtherRecord
      exact ⟨later, isLater, persists⟩
    · exact ⟨otherRecord, by rw [records other same, isOtherRecord],
        PromiseObject.Persists.refl otherRecord⟩

/-- An action on one promise that starts no job. -/
theorem Holds.next (holds : machine.Holds) (isRecord : machine.promises promise = some record)
    (acts : ActsOn promise machine.toPromiseContext after.toPromiseContext)
    (lookups : ∀ other, other ≠ promise →
      after.frames.countP (looksUp other) = machine.frames.countP (looksUp other))
    (executors : ∀ other, .executor other ∈ after.frames → .executor other ∈ machine.frames)
    (access : ∀ other, other ≠ promise → after.access other = machine.access other)
    (opened : machine.access promise = .resolvers → after.access promise = .resolvers)
    (started : after.started = machine.started) {later : PromiseObject}
    (isLater : after.promises promise = some later)
    (laterHolds : (after.view promise).RecordHolds (after.access promise) later)
    (persists : record.Persists later) : Next machine after := by
  refine holds.nextOf isRecord ?_ acts.resolvers ?_ executors access opened isLater laterHolds
    persists
  · intro other isOther
    rw [view, view, acts.others other isOther, lookups other isOther]
  · rcases acts.enqueues with ⟨jobs, queue, history⟩
    rw [history, queue, holds.queue, started, List.append_assoc]

theorem withFlag_self {context : PromiseContext} (isRecord : context.promises promise = some record) :
    context.withFlag record.alreadyResolved promise record = context := by
  rw [PromiseContext.withFlag, ← isRecord, Function.update_eq_self]

/-- The open calls and the access of a machine after an action on one promise. -/
structure Leaves (promise : EcmaObject) (machine : PromiseMachine) (frames : List PromiseFrame)
    (access : EcmaObject → PromiseAccess) : Prop where
  lookups : ∀ other, other ≠ promise →
    frames.countP (looksUp other) = machine.frames.countP (looksUp other)
  executors : ∀ other, .executor other ∈ frames → .executor other ∈ machine.frames
  others : ∀ other, other ≠ promise → access other = machine.access other
  opened : machine.access promise = PromiseAccess.resolvers →
    access promise = PromiseAccess.resolvers

variable {frames : List PromiseFrame} {access : EcmaObject → PromiseAccess}

theorem Leaves.same (promise : EcmaObject) (machine : PromiseMachine) :
    Leaves promise machine machine.frames machine.access :=
  ⟨fun _ _ => rfl, fun _ => id, fun _ _ => rfl, id⟩

/-- A pending promise is settled. -/
theorem Holds.settle (holds : machine.Holds) (flag : Bool)
    (isRecord : machine.promises promise = some record)
    (isPending : record.isPending = true) (leaves : Leaves promise machine frames access)
    (noneOpen : machine.queue.countP (PromiseJob.resolves promise) +
      frames.countP (looksUp promise) = 0)
    (claimed : ∀ later : PromiseObject, later.alreadyResolved = flag →
      isClaimed (access promise) later = true)
    (isFulfilled : Bool) (value : EcmaValue) :
    ∃ context, settlePromise isFulfilled (machine.toPromiseContext.withFlag flag promise record)
        promise value = .ok context ∧
      Next machine { machine with toPromiseContext := context, frames, access } := by
  have recordHolds := holds.recordHolds isRecord
  rcases recordHolds.pending isPending with ⟨settles, none⟩
  have flagged := actsOn_update machine.toPromiseContext promise
    (some { record with alreadyResolved := flag })
  rcases settlePromise_spec (machine.toPromiseContext.withFlag flag promise record) isFulfilled
    value (Function.update_self _ _ _)
    ⟨isPending, settles.isFulfilled, settles.result, settles.reactions⟩ with
    ⟨context, returns, acts, view⟩
  rw [PromiseContext.withFlag, view_update] at view
  refine ⟨context, returns, holds.next isRecord (flagged.trans acts) leaves.lookups
    leaves.executors leaves.others leaves.opened rfl (congrArg PromiseView.record view) ?_ ?_⟩
  · constructor
    · intro stillPending
      cases stillPending
    · intro _
      refine ⟨claimed _ rfl, ?_⟩
      simp only [PromiseMachine.view, view]
      rw [show (machine.toPromiseContext.view promise).delivered = [] from none]
      rfl
    · simp only [PromiseMachine.view, view]
      exact noneOpen
  · intro isSettled
    rw [isPending] at isSettled
    cases isSettled

/-- A pending promise stays pending. -/
theorem Holds.keepPending (holds : machine.Holds) (flag : Bool)
    (isRecord : machine.promises promise = some record)
    (isPending : record.isPending = true) (leaves : Leaves promise machine frames access)
    {context : PromiseContext} (resolutions : ℕ)
    (acts : ActsOn promise machine.toPromiseContext context)
    (view : context.view promise =
      { machine.toPromiseContext.view promise with
        record := some { record with alreadyResolved := flag }, resolutions })
    (open' : resolutions + frames.countP (looksUp promise) =
      if isClaimed (access promise) { record with alreadyResolved := flag } = true then 1 else 0) :
    Next machine { machine with toPromiseContext := context, frames, access } := by
  rcases (holds.recordHolds isRecord).pending isPending with ⟨settles, none⟩
  refine holds.next isRecord acts leaves.lookups leaves.executors leaves.others leaves.opened rfl
    (congrArg PromiseView.record view) ?_ ?_
  · constructor
    · intro _
      simp only [PromiseMachine.view, view]
      exact ⟨⟨isPending, settles.isFulfilled, settles.result, settles.reactions⟩, none⟩
    · intro isSettled
      rw [isPending] at isSettled
      cases isSettled
    · simp only [PromiseMachine.view, view, isPending, true_and]
      exact open'
  · intro isSettled
    rw [isPending] at isSettled
    cases isSettled

/-- A promise whose resolution has not begun. -/
theorem Holds.unclaimed (holds : machine.Holds) (isRecord : machine.promises promise = some record)
    (notClaimed : isClaimed (machine.access promise) record = false) :
    record.isPending = true ∧ machine.queue.countP (PromiseJob.resolves promise) +
      machine.frames.countP (looksUp promise) = 0 := by
  have recordHolds := holds.recordHolds isRecord
  refine ⟨?_, ?_⟩
  · by_contra notPending
    have claimed := (recordHolds.settled (by simpa using notPending)).1
    rw [notClaimed] at claimed
    cases claimed
  · have resolutions := recordHolds.resolutions
    rwa [notClaimed, if_neg (by simp)] at resolutions

/-- A promise with an open resolution. -/
theorem Holds.claimed (holds : machine.Holds) {resolutions : ℕ}
    (open' : machine.queue.countP (PromiseJob.resolves promise) +
      machine.frames.countP (looksUp promise) = resolutions + 1) :
    resolutions = 0 ∧ ∃ record, machine.promises promise = some record ∧
      record.isPending = true ∧ isClaimed (machine.access promise) record = true := by
  cases isRecord : machine.promises promise with
  | none =>
      have viewHolds := holds.views promise
      rw [PromiseView.Holds, show (machine.view promise).record = none from isRecord] at viewHolds
      have resolutionsZero : machine.queue.countP (PromiseJob.resolves promise) +
        machine.frames.countP (looksUp promise) = 0 := viewHolds.1
      omega
  | some record =>
      have total : machine.queue.countP (PromiseJob.resolves promise) +
          machine.frames.countP (looksUp promise) =
            if record.isPending = true ∧ isClaimed (machine.access promise) record = true
              then 1 else 0 := (holds.recordHolds isRecord).resolutions
      split_ifs at total with both
      · exact ⟨by omega, record, rfl, both.1, both.2⟩
      · omega

/-- `ecma_reject_promise_with_checks`. -/
theorem Holds.rejectWithChecks (holds : machine.Holds)
    (known : machine.promises promise ≠ none) (isOpen : machine.access promise = .resolvers)
    (reason : EcmaValue) :
    ∃ after, machine.rejectWithChecks promise reason = .ok after ∧ Next machine after := by
  rcases Option.ne_none_iff_exists'.mp known with ⟨record, isRecord⟩
  simp only [PromiseMachine.rejectWithChecks, ecmaRejectPromiseWithChecks, isRecord]
  by_cases already : record.alreadyResolved = true
  · rw [if_pos already]
    exact ⟨machine, rfl, holds.next_refl⟩
  · rw [if_neg already]
    rcases holds.unclaimed isRecord (by simpa [isClaimed, isOpen] using already) with
      ⟨isPending, noneOpen⟩
    rcases holds.settle true isRecord isPending (Leaves.same promise machine) noneOpen
      (fun later isSet => by rw [isOpen]; exact isSet) false reason with ⟨context, returns, next⟩
    rw [ecmaRejectPromise, returns]
    exact ⟨_, rfl, next⟩

/-- The lookup of `then` is one more open call. -/
theorem Leaves.lookUp (leaves : Leaves promise machine frames access) (thenable : EcmaObject) :
    Leaves promise machine (.thenLookup promise thenable :: frames) access where
  lookups other isOther := by
    rw [List.countP_cons_of_neg (by simpa [looksUp] using isOther.symm), leaves.lookups other isOther]
  executors other mem := by
    rcases List.mem_cons.mp mem with isFirst | inRest
    · cases isFirst
    · exact leaves.executors other inRest
  others := leaves.others
  opened := leaves.opened

/-- `ecma_fulfill_promise` on a promise whose resolution has not begun. -/
theorem Holds.fulfill (holds : machine.Holds) (flag : Bool)
    (isRecord : machine.promises promise = some record)
    (notClaimed : isClaimed (machine.access promise) record = false)
    (leaves : Leaves promise machine machine.frames access)
    (claimed : ∀ later : PromiseObject, later.alreadyResolved = flag →
      isClaimed (access promise) later = true) (value error : EcmaValue) :
    (∃ context, ecmaFulfillPromise (machine.toPromiseContext.withFlag flag promise record) promise
        value error = .ok (.done context) ∧
      Next machine { machine with toPromiseContext := context, access }) ∨
    ∃ thenable, ecmaFulfillPromise (machine.toPromiseContext.withFlag flag promise record) promise
        value error = .ok (.lookingUp thenable) ∧
      Next machine
        { machine with
          toPromiseContext := machine.toPromiseContext.withFlag flag promise record
          frames := .thenLookup promise thenable :: machine.frames
          access } := by
  rcases holds.unclaimed isRecord notClaimed with ⟨isPending, noneOpen⟩
  have settle := fun isFulfilled value =>
    holds.settle flag isRecord isPending leaves noneOpen claimed isFulfilled value
  have start : ecmaFulfillPromise (machine.toPromiseContext.withFlag flag promise record) promise
      value error = fulfillPending (machine.toPromiseContext.withFlag flag promise record) promise
        value error := by
    have isFlagged : (machine.toPromiseContext.withFlag flag promise record).promises promise =
        some { record with alreadyResolved := flag } := Function.update_self _ _ _
    have notClosed :
        ¬(!({ record with alreadyResolved := flag } : PromiseObject).isPending) = true := by
      simpa using isPending
    rw [ecmaFulfillPromise, isFlagged]
    exact if_neg notClosed
  rw [start]
  unfold fulfillPending
  by_cases isSelf : value = .object promise
  · left
    rcases settle false error with ⟨context, returns, next⟩
    rw [if_pos isSelf, ecmaRejectPromise, returns]
    exact ⟨context, rfl, next⟩
  · rw [if_neg isSelf]
    have settles : ∃ context, (settlePromise true
        (machine.toPromiseContext.withFlag flag promise record) promise value).map
          FulfillProgress.done = .ok (.done context) ∧
        Next machine { machine with toPromiseContext := context, access } := by
      rcases settle true value with ⟨context, returns, next⟩
      rw [returns]
      exact ⟨context, rfl, next⟩
    cases value with
    | object thenable =>
        right
        refine ⟨thenable, rfl, holds.keepPending flag isRecord isPending
          (leaves.lookUp thenable) _ (actsOn_update _ _ _) (view_update _ _ _) ?_⟩
        rw [if_pos (claimed _ rfl), List.countP_cons_of_pos (by simp [looksUp])]
        exact congrArg (· + 1) noneOpen
    | _ => exact .inl settles

/-- `ecma_fulfill_promise_with_checks`. -/
theorem Holds.fulfillWithChecks (holds : machine.Holds)
    (known : machine.promises promise ≠ none) (isOpen : machine.access promise = .resolvers)
    (value error : EcmaValue) :
    ∃ after, machine.fulfillWithChecks promise value error = .ok after ∧ Next machine after := by
  rcases Option.ne_none_iff_exists'.mp known with ⟨record, isRecord⟩
  simp only [PromiseMachine.fulfillWithChecks, ecmaFulfillPromiseWithChecks, isRecord]
  by_cases already : record.alreadyResolved = true
  · rw [if_pos already]
    exact ⟨machine, rfl, holds.next_refl⟩
  · rw [if_neg already]
    rcases holds.fulfill true isRecord (by simpa [isClaimed, isOpen] using already)
      (Leaves.same promise machine) (fun later isSet => by rw [isOpen]; exact isSet) value error
      with ⟨context, returns, next⟩ | ⟨thenable, returns, next⟩
    · rw [returns]
      exact ⟨_, rfl, next⟩
    · rw [returns]
      exact ⟨_, rfl, next⟩

/-- A function is called that may be a resolving function. -/
theorem Holds.callFunction (holds : machine.Holds) (function : EcmaObject)
    (argument error : EcmaValue) :
    ∃ after, machine.callFunction function argument error = .ok after ∧ Next machine after := by
  rw [PromiseMachine.callFunction]
  cases isResolver : machine.resolvers function with
  | none => exact ⟨machine, rfl, holds.next_refl⟩
  | some resolver =>
      rcases holds.resolvers function resolver isResolver with ⟨known, isOpen⟩
      rcases resolver with ⟨promise, isReject⟩
      cases isReject with
      | false => exact holds.fulfillWithChecks known isOpen argument error
      | true => exact holds.rejectWithChecks known isOpen argument

/-- A reaction is added to a promise. -/
theorem Holds.addReaction (holds : machine.Holds) (known : machine.promises promise ≠ none)
    (reaction : Reaction) :
    ∃ context, Cmsframe.addReaction machine.toPromiseContext promise reaction = .ok context ∧
      Next machine { machine with toPromiseContext := context } := by
  rcases Option.ne_none_iff_exists'.mp known with ⟨record, isRecord⟩
  have recordHolds := holds.recordHolds isRecord
  simp only [Cmsframe.addReaction, isRecord]
  obtain ⟨base, isBase⟩ : ∃ base, { machine.toPromiseContext with
    registered := machine.registered ++ [(promise, reaction)] } = base := ⟨_, rfl⟩
  have registers : ActsOn promise machine.toPromiseContext base := by
    subst isBase
    refine ⟨fun other isOther => ?_, rfl, ⟨[], (List.append_nil _).symm, (List.append_nil _).symm⟩⟩
    simp [PromiseContext.view, PromiseContext.registeredAt, PromiseContext.delivered,
      isOther.symm]
  have registered : base.view promise =
      { machine.toPromiseContext.view promise with
        registered := machine.registeredAt promise ++ [reaction] } := by
    subst isBase
    simp [PromiseContext.view, PromiseContext.registeredAt, PromiseContext.delivered]
  by_cases isPending : record.isPending = true
  · rw [if_pos isPending]
    rcases recordHolds.pending isPending with ⟨settles, none⟩
    have view := view_update base promise
      (some { record with reactions := record.reactions ++ reactionItems reaction })
    rw [registered] at view
    refine ⟨{ base with promises := Function.update base.promises promise _ }, by rw [← isBase],
      holds.next isRecord (registers.trans (actsOn_update base promise _))
      (fun _ _ => rfl) (fun _ => id) (fun _ _ => rfl) id rfl (congrArg PromiseView.record view) ?_
      (fun isSettled => absurd isPending (by simp [isSettled]))⟩
    constructor
    · intro _
      simp only [PromiseMachine.view, view]
      refine ⟨⟨isPending, settles.isFulfilled, settles.result, ?_⟩, none⟩
      simp only [List.flatMap_append, List.flatMap_singleton, settles.reactions]
      rfl
    · intro isSettled
      exact absurd isPending (by simpa using isSettled)
    · simp only [PromiseMachine.view, view]
      exact recordHolds.resolutions
  · rw [if_neg isPending]
    have isSettled : record.isPending = false := by simpa using isPending
    rcases recordHolds.settled isSettled with ⟨claimed, delivered⟩
    have noResolving : ∀ other,
        (settledJob record.isFulfilled record.result reaction).resolves other = false := by
      cases reaction <;> simp [settledJob, PromiseJob.resolves]
    have view := view_enqueueJob base promise
      (settledJob record.isFulfilled record.result reaction)
    rw [registered, noResolving, settledJob_isReaction] at view
    refine ⟨base.enqueueJob (some promise) _, by rw [← isBase],
      holds.next isRecord (registers.trans (actsOn_enqueueJob base promise _ ?_))
      (fun _ _ => rfl) (fun _ => id) (fun _ _ => rfl) id rfl
      ((congrArg PromiseView.record view).trans isRecord) ?_ (PromiseObject.Persists.refl record)⟩
    · intro other resolved
      rw [noResolving] at resolved
      cases resolved
    · constructor
      · intro stillPending
        exact absurd stillPending isPending
      · intro _
        simp only [PromiseMachine.view, view, List.map_append]
        exact ⟨claimed, congrArg (· ++ _) delivered⟩
      · simp only [PromiseMachine.view, view]
        exact recordHolds.resolutions

theorem isClaimed_congr (access : PromiseAccess) {later : PromiseObject}
    (same : later.alreadyResolved = record.alreadyResolved) :
    isClaimed access later = isClaimed access record := by
  cases access <;> simp [isClaimed, same]

/-- The rest of `ecma_fulfill_promise`, after the lookup of `then`. -/
theorem Holds.fulfillThen (holds : machine.Holds) {thenable : EcmaObject}
    (isTop : machine.frames = .thenLookup promise thenable :: frames)
    (callable : EcmaObject → Bool) (completion : Except EcmaValue EcmaValue) :
    ∃ context, ecmaFulfillPromiseThen callable machine.toPromiseContext promise thenable
        completion = .ok context ∧
      Next machine { machine with toPromiseContext := context, frames } := by
  have open' : machine.queue.countP (PromiseJob.resolves promise) +
      machine.frames.countP (looksUp promise) =
        (machine.queue.countP (PromiseJob.resolves promise) +
          frames.countP (looksUp promise)) + 1 := by
    rw [isTop, List.countP_cons_of_pos (by simp [looksUp]), Nat.add_assoc]
  rcases holds.claimed open' with ⟨noneOpen, record, isRecord, isPending, claimed⟩
  have leaves : Leaves promise machine frames machine.access := by
    refine ⟨fun other isOther => ?_, fun other mem => ?_, fun _ _ => rfl, id⟩
    · rw [isTop, List.countP_cons_of_neg (by simpa [looksUp] using isOther.symm)]
    · rw [isTop]
      exact List.mem_cons_of_mem _ mem
  have settle := fun isFulfilled value =>
    holds.settle record.alreadyResolved isRecord isPending leaves noneOpen
      (fun later same => (isClaimed_congr _ same).trans claimed) isFulfilled value
  rw [withFlag_self isRecord] at settle
  cases completion with
  | error exception => exact settle false exception
  | ok method =>
      rw [ecmaFulfillPromiseThen]
      split_ifs with isCallable
      · refine ⟨_, rfl, holds.keepPending record.alreadyResolved isRecord isPending leaves
          (machine.queue.countP (PromiseJob.resolves promise) + 1) (actsOn_enqueueJob _ promise _ ?_)
          ((view_enqueueJob _ promise _).trans ?_) ?_⟩
        · intro other resolved
          simpa [PromiseJob.resolves, eq_comm] using resolved
        · simp [PromiseContext.view, PromiseJob.resolves, PromiseJob.isReaction, isRecord]
        · rw [if_pos claimed, Nat.add_right_comm, noneOpen]
      · exact settle true (.object thenable)

/-- A call from inside a promise operation returns. -/
theorem Holds.returnFrom (holds : machine.Holds) {frame : PromiseFrame}
    (isTop : machine.frames = frame :: frames) (capabilities : EcmaObject → PromiseCapability)
    (callable : EcmaObject → Bool) (completion : Except EcmaValue EcmaValue) (error : EcmaValue) :
    ∃ after, { machine with frames }.returnFrom capabilities callable frame completion error =
        .ok after ∧ Next machine after := by
  have executors : ∀ other, .executor other ∈ frames → .executor other ∈ machine.frames := by
    intro other mem
    rw [isTop]
    exact List.mem_cons_of_mem frame mem
  have popped : (∀ other, looksUp other frame = false) → Next machine { machine with frames } := by
    intro noLookup
    refine holds.unchanged (fun other => ?_) rfl executors rfl holds.queue
    rw [view, view, isTop, List.countP_cons_of_neg (by simp [noLookup])]
  cases frame with
  | thenLookup promise thenable =>
      rcases holds.fulfillThen isTop callable completion with ⟨context, returns, next⟩
      exact ⟨_, by simp [PromiseMachine.returnFrom, returns, bind, Except.bind]; rfl, next⟩
  | executor promise =>
      have popped := popped fun _ => rfl
      cases completion with
      | ok value => exact ⟨_, rfl, popped⟩
      | error exception =>
          rcases holds.executors promise (by rw [isTop]; exact List.mem_cons_self) with
            ⟨known, isOpen⟩
          rcases popped.holds.rejectWithChecks known isOpen exception with
            ⟨after, returns, next⟩
          exact ⟨after, returns, popped.trans next⟩
  | handler capability =>
      have popped := popped fun _ => rfl
      cases completion with
      | ok value =>
          rcases popped.holds.callFunction (capabilities capability).resolve value error with
            ⟨after, returns, next⟩
          exact ⟨after, returns, popped.trans next⟩
      | error exception =>
          rcases popped.holds.callFunction (capabilities capability).reject exception error with
            ⟨after, returns, next⟩
          exact ⟨after, returns, popped.trans next⟩

/-- A promise is created. -/
theorem Holds.create (holds : machine.Holds) (isNew : machine.promises promise = none)
    (opened : PromiseAccess) (usable : opened ≠ .settledByEngine) :
    Next machine
      { machine with
        toPromiseContext := createPromise machine.toPromiseContext promise
        access := Function.update machine.access promise opened } := by
  have viewHolds := holds.views promise
  rw [PromiseView.Holds, show (machine.view promise).record = none from isNew] at viewHolds
  rcases viewHolds with ⟨noneOpen, noneRegistered, noneDelivered⟩
  have different : ∀ other, machine.promises other ≠ none → other ≠ promise := by
    rintro other known rfl
    exact known isNew
  have acts := actsOn_update machine.toPromiseContext promise
    (some {
      isPending := true
      isFulfilled := false
      alreadyResolved := false
      result := .simple .undefined
      reactions := [] })
  have view := view_update machine.toPromiseContext promise
    (some {
      isPending := true
      isFulfilled := false
      alreadyResolved := false
      result := .simple .undefined
      reactions := [] })
  have known : ∀ other, machine.promises other ≠ none ∧ machine.access other = .resolvers →
      (createPromise machine.toPromiseContext promise).promises other ≠ none ∧
        Function.update machine.access promise opened other = .resolvers := by
    rintro other ⟨known, isOpen⟩
    rw [createPromise]
    simp only [Function.update_of_ne (different other known)]
    exact ⟨known, isOpen⟩
  refine ⟨⟨?_, ?_, ?_, holds.queue⟩, ?_⟩
  · intro other
    by_cases same : other = promise
    · subst same
      simp only [PromiseMachine.view, createPromise, view, PromiseView.Holds, Function.update_self]
      constructor
      · refine fun _ => ⟨⟨rfl, rfl, rfl, ?_⟩, noneDelivered⟩
        exact (congrArg (List.flatMap reactionItems) noneRegistered).symm
      · intro isSettled
        cases isSettled
      · have notClaimed : ∀ record : PromiseObject, record.alreadyResolved = false →
            isClaimed opened record = false := by
          intro record isClear
          cases opened with
          | resolvers => exact isClear
          | engine => rfl
          | settledByEngine => exact absurd rfl usable
        rw [notClaimed _ rfl, if_neg (by simp)]
        exact noneOpen
    · simp only [PromiseMachine.view, createPromise, acts.others other same,
        Function.update_of_ne same]
      exact holds.views other
  · exact fun function resolver isResolver => known _ (holds.resolvers function resolver isResolver)
  · exact fun other mem => known other (holds.executors other mem)
  · intro other record isRecord
    have isOther := different other (by simp [isRecord])
    exact ⟨record, by simp [createPromise, isOther, isRecord], PromiseObject.Persists.refl record⟩

/-- Resolving functions are created for a promise, and they are passed to a function. -/
theorem Holds.runExecutor (holds : machine.Holds) (promise : EcmaObject)
    (known : machine.promises promise ≠ none)
    (isOpen : machine.access promise = .resolvers) (resolve reject : EcmaObject) :
    Next machine
      { machine with
        toPromiseContext :=
          createResolvingFunctions machine.toPromiseContext promise resolve reject
        frames := .executor promise :: machine.frames } := by
  refine ⟨⟨?_, ?_, ?_, holds.queue⟩, fun other record isRecord =>
    ⟨record, isRecord, PromiseObject.Persists.refl record⟩⟩
  · intro other
    have same : PromiseMachine.view
        { machine with
          toPromiseContext :=
            createResolvingFunctions machine.toPromiseContext promise resolve reject
          frames := .executor promise :: machine.frames } other = machine.view other := by
      have noLookup : ¬looksUp other (.executor promise) = true := Bool.false_ne_true
      simp only [PromiseMachine.view, List.countP_cons_of_neg noLookup]
      rfl
    rw [same]
    exact holds.views other
  · intro function resolver isResolver
    simp only [createResolvingFunctions] at isResolver ⊢
    rw [Function.update_apply, Function.update_apply] at isResolver
    split_ifs at isResolver
    · cases isResolver
      exact ⟨known, isOpen⟩
    · cases isResolver
      exact ⟨known, isOpen⟩
    · exact holds.resolvers function resolver isResolver
  · intro other mem
    rcases List.mem_cons.mp mem with isFirst | inRest
    · cases isFirst
      exact ⟨known, isOpen⟩
    · exact holds.executors other inRest

/-- A job is taken from the queue that does not go on with a resolution. -/
theorem Holds.startJob (holds : machine.Holds) {job : PromiseJob} {jobs : List PromiseJob}
    (isFirst : machine.queue = job :: jobs) (noResolving : ∀ other, job.resolves other = false) :
    Next machine { machine with queue := jobs, started := machine.started ++ [job] } := by
  refine holds.unchanged (fun other => ?_) rfl (fun _ => id) rfl ?_
  · simp only [PromiseMachine.view, PromiseContext.view, isFirst, List.countP_cons, noResolving]
    rfl
  · simp only [holds.queue, isFirst, List.append_assoc, List.singleton_append]

/-- A job is taken from the queue that goes on with a resolution: the promise can be resolved
again. -/
theorem Holds.startThenable (holds : machine.Holds) {thenable : EcmaObject} {method : EcmaValue}
    {jobs : List PromiseJob} (isFirst : machine.queue = .thenable promise thenable method :: jobs) :
    ∃ record, machine.promises promise = some record ∧
      Next machine
        { machine with
          toPromiseContext :=
            { machine.toPromiseContext with queue := jobs }.withFlag false promise record
          started := machine.started ++ [.thenable promise thenable method]
          access := Function.update machine.access promise .resolvers } := by
  have open' : machine.queue.countP (PromiseJob.resolves promise) +
      machine.frames.countP (looksUp promise) =
        (jobs.countP (PromiseJob.resolves promise) +
          machine.frames.countP (looksUp promise)) + 1 := by
    rw [isFirst, List.countP_cons_of_pos (by simp [PromiseJob.resolves]), Nat.add_right_comm]
  rcases holds.claimed open' with ⟨noneOpen, record, isRecord, isPending, _⟩
  rcases (holds.recordHolds isRecord).pending isPending with ⟨settles, none⟩
  refine ⟨record, isRecord, holds.nextOf isRecord ?_ rfl ?_ (fun _ => id)
    (fun other isOther => Function.update_of_ne isOther _ _) (fun _ => Function.update_self _ _ _)
    (Function.update_self _ _ _) ?_ (fun isSettled => absurd isPending (by simp [isSettled]))⟩
  · intro other isOther
    have different : (PromiseJob.thenable promise thenable method).resolves other = false := by
      simpa [PromiseJob.resolves] using isOther.symm
    simp only [PromiseMachine.view, PromiseContext.view, PromiseContext.withFlag, isFirst,
      List.countP_cons, different, Function.update_of_ne isOther]
    rfl
  · simp only [PromiseContext.withFlag, holds.queue, isFirst, List.append_assoc,
      List.singleton_append]
  · constructor
    · exact fun _ => ⟨⟨isPending, settles.isFulfilled, settles.result, settles.reactions⟩, none⟩
    · intro isSettled
      exact absurd isPending (by simpa using isSettled)
    · simp only [Function.update_self, isClaimed, Bool.false_eq_true, and_false, if_false]
      exact noneOpen

variable (capabilities : EcmaObject → PromiseCapability) (callable : EcmaObject → Bool)

/-- A reaction job calls its handler, or goes on with the argument. -/
theorem Holds.processReaction (holds : machine.Holds) (capability : EcmaObject)
    (handler argument error : EcmaValue) :
    ∃ after, machine.processReaction capabilities capability handler argument error = .ok after ∧
      Next machine after := by
  rw [PromiseMachine.processReaction]
  split_ifs
  · exact holds.callFunction _ argument error
  · exact holds.callFunction _ argument error
  · refine ⟨_, rfl, holds.unchanged (fun other => ?_) rfl (fun other mem => ?_) rfl holds.queue⟩
    · have noLookup : ¬looksUp other (.handler capability) = true := Bool.false_ne_true
      simp only [PromiseMachine.view, List.countP_cons_of_neg noLookup]
    · rcases List.mem_cons.mp mem with isTop | inRest
      · cases isTop
      · exact inRest

/-- The next job is started. -/
theorem Holds.processJob (holds : machine.Holds) (resolve reject : EcmaObject) (error : EcmaValue) :
    ∃ after, machine.processJob capabilities resolve reject error = .ok after ∧
      Next machine after := by
  rw [PromiseMachine.processJob]
  cases isFirst : machine.queue with
  | nil => exact ⟨machine, rfl, holds.next_refl⟩
  | cons job jobs =>
      cases job with
      | reaction capability handler argument =>
          have started := holds.startJob isFirst fun _ => rfl
          rcases started.holds.processReaction capabilities capability handler argument error with
            ⟨after, returns, next⟩
          exact ⟨after, returns, started.trans next⟩
      | asyncReaction executable argument isRejected =>
          exact ⟨_, rfl, holds.startJob isFirst fun _ => rfl⟩
      | asyncGenerator executable => exact ⟨_, rfl, holds.startJob isFirst fun _ => rfl⟩
      | thenable promise thenable method =>
          rcases holds.startThenable isFirst with ⟨record, isRecord, started⟩
          have runs := started.holds.runExecutor promise
            (by simp [PromiseContext.withFlag]) (Function.update_self _ _ _) resolve reject
          simp only [allowResolving, isRecord]
          exact ⟨_, rfl, started.trans runs⟩

/-- A promise that has no resolving functions is settled by the engine. -/
theorem Leaves.settledByEngine (isEngine : machine.access promise = .engine) :
    Leaves promise machine machine.frames
      (Function.update machine.access promise .settledByEngine) where
  lookups _ _ := rfl
  executors _ := id
  others other isOther := Function.update_of_ne isOther _ _
  opened isOpen := by
    rw [isEngine] at isOpen
    cases isOpen

/-- What the code around the promise operations keeps to: new promises are new, operations are on
promises, only resolving functions and the host resolve a promise that has such functions, and
the engine settles each of its own promises once. -/
def Enabled (machine : PromiseMachine) : PromiseAction → Prop
  | .create promise access => machine.promises promise = none ∧ access ≠ .settledByEngine
  | .construct promise _ _ => machine.promises promise = none
  | .performThen promise _ _ _ => machine.promises promise ≠ none
  | .asyncThen promise _ => machine.promises promise ≠ none
  | .enqueueAsyncGenerator _ => True
  | .call _ _ _ => True
  | .jerryPromiseResolve promise _ _ =>
      machine.promises promise ≠ none ∧ machine.access promise = .resolvers
  | .jerryPromiseReject promise _ =>
      machine.promises promise ≠ none ∧ machine.access promise = .resolvers
  | .fulfillPromise promise _ _ =>
      machine.promises promise ≠ none ∧ machine.access promise = .engine
  | .rejectPromise promise _ =>
      machine.promises promise ≠ none ∧ machine.access promise = .engine
  | .processJob _ _ _ => True
  | .return _ _ => True

/-- No action fails an assertion, and promises stay as they are once settled. -/
theorem Holds.perform (holds : machine.Holds) {action : PromiseAction}
    (enabled : machine.Enabled action) :
    ∃ after, machine.perform capabilities callable action = .ok after ∧ Next machine after := by
  cases action with
  | create promise access => exact ⟨_, rfl, holds.create enabled.1 _ enabled.2⟩
  | construct promise resolve reject =>
      have created := holds.create enabled .resolvers (by simp)
      have runs := created.holds.runExecutor promise (by simp [createPromise])
        (Function.update_self _ _ _) resolve reject
      exact ⟨_, rfl, created.trans runs⟩
  | performThen promise onFulfilled onRejected capability =>
      rcases holds.addReaction enabled (keptReaction callable capability onFulfilled onRejected) with
        ⟨context, returns, next⟩
      exact ⟨_, by rw [PromiseMachine.perform, ecmaPromisePerformThen, returns]; rfl, next⟩
  | asyncThen promise executable =>
      rcases holds.addReaction enabled (.resume executable) with ⟨context, returns, next⟩
      exact ⟨_, by rw [PromiseMachine.perform, ecmaPromiseAsyncThen, returns]; rfl, next⟩
  | enqueueAsyncGenerator executable =>
      refine ⟨_, rfl, holds.unchanged (fun other => ?_) rfl (fun _ => id) rfl ?_⟩
      · simp [PromiseMachine.view, PromiseContext.view, PromiseContext.enqueueJob,
          PromiseContext.registeredAt, PromiseContext.delivered, PromiseJob.resolves]
      · simp [PromiseContext.enqueueJob, holds.queue]
  | call function argument error => exact holds.callFunction function argument error
  | jerryPromiseResolve promise argument error =>
      exact holds.fulfillWithChecks enabled.1 enabled.2 argument error
  | jerryPromiseReject promise argument =>
      exact holds.rejectWithChecks enabled.1 enabled.2 argument
  | fulfillPromise promise value error =>
      rcases enabled with ⟨known, isEngine⟩
      rcases Option.ne_none_iff_exists'.mp known with ⟨record, isRecord⟩
      have fulfill := holds.fulfill record.alreadyResolved isRecord
        (by rw [isEngine]; rfl) (Leaves.settledByEngine isEngine)
        (fun later _ => by rw [Function.update_self]; rfl) value error
      rw [withFlag_self isRecord] at fulfill
      rw [PromiseMachine.perform]
      rcases fulfill with ⟨context, returns, next⟩ | ⟨thenable, returns, next⟩
      · exact ⟨_, by simp only [returns, bind, Except.bind]; rfl, next⟩
      · exact ⟨_, by simp only [returns, bind, Except.bind]; rfl, next⟩
  | rejectPromise promise reason =>
      rcases enabled with ⟨known, isEngine⟩
      rcases Option.ne_none_iff_exists'.mp known with ⟨record, isRecord⟩
      rcases holds.unclaimed isRecord (by rw [isEngine]; rfl) with ⟨isPending, noneOpen⟩
      have settle := holds.settle record.alreadyResolved isRecord isPending
        (Leaves.settledByEngine isEngine) noneOpen
        (fun later _ => by rw [Function.update_self]; rfl) false reason
      rw [withFlag_self isRecord] at settle
      rcases settle with ⟨context, returns, next⟩
      exact ⟨_, by simp only [PromiseMachine.perform, ecmaRejectPromise, returns, bind, Except.bind];
                   rfl, next⟩
  | processJob resolve reject error => exact holds.processJob capabilities resolve reject error
  | «return» completion error =>
      rw [PromiseMachine.perform]
      cases isTop : machine.frames with
      | nil => exact ⟨machine, rfl, holds.next_refl⟩
      | cons frame frames => exact holds.returnFrom isTop capabilities callable completion error

end PromiseMachine

end Cmsframe
