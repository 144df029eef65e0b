import Cmsframe.Main.Driver

/-!
# Reading a record

What the record of a run says about scripts and jobs, and the first facts about it: most
functions of the driver are quiet, they process no job and run no script of their own, and
only add what user code enqueues to the end of the queue. `Fifo` replays the queue along a
record.
-/

namespace Cmsframe

open Interaction

/-- The jobs that were enqueued, in this order. -/
def enqueuedJobs (trace : List Event) : List Job := trace.flatMap Event.enqueued

/-- The marks of a record. -/
def marks (trace : List Event) : List Mark := trace.filterMap Event.mark?

namespace Mark

def executed? : Mark → Option CString
  | .execScript path => some path
  | _ => none

def scriptResult? : Mark → Option (CString × Completion ScriptValue)
  | .execScriptReturns path result => some (path, result)
  | _ => none

def processed? : Mark → Option Job
  | .processJob job => some job
  | _ => none

def jobResult? : Mark → Option (Job × Completion ScriptValue)
  | .processJobReturns job result => some (job, result)
  | _ => none

end Mark

/-- The scripts that were executed, in this order. -/
def executedScripts (trace : List Event) : List CString := (marks trace).filterMap Mark.executed?

/-- The results of the scripts. -/
def scriptResults (trace : List Event) : List (CString × Completion ScriptValue) :=
  (marks trace).filterMap Mark.scriptResult?

/-- The jobs that were processed, in this order. -/
def processedJobs (trace : List Event) : List Job := (marks trace).filterMap Mark.processed?

/-- The results of the jobs. -/
def jobResults (trace : List Event) : List (Job × Completion ScriptValue) :=
  (marks trace).filterMap Mark.jobResult?

/-- No call in the record starts, sets up or stops the engine. -/
def NoLifecycle (trace : List Event) : Prop := ∀ event ∈ trace, event.isLifecycle = false

theorem noLifecycle_nil : NoLifecycle [] := List.forall_mem_nil _

section Append

variable (earlier later : List Event) (event : Event)

@[simp]
theorem enqueuedJobs_nil : enqueuedJobs [] = [] := rfl

@[simp]
theorem enqueuedJobs_cons :
    enqueuedJobs (event :: later) = event.enqueued ++ enqueuedJobs later := rfl

@[simp]
theorem enqueuedJobs_append :
    enqueuedJobs (earlier ++ later) = enqueuedJobs earlier ++ enqueuedJobs later :=
  List.flatMap_append

@[simp]
theorem marks_nil : marks [] = [] := rfl

@[simp]
theorem marks_append : marks (earlier ++ later) = marks earlier ++ marks later :=
  List.filterMap_append

theorem marks_cons : marks (event :: later) = event.mark?.toList ++ marks later := by
  cases isMark : event.mark? <;> simp [marks, isMark]

@[simp]
theorem executedScripts_append :
    executedScripts (earlier ++ later) = executedScripts earlier ++ executedScripts later := by
  simp [executedScripts]

@[simp]
theorem scriptResults_append :
    scriptResults (earlier ++ later) = scriptResults earlier ++ scriptResults later := by
  simp [scriptResults]

@[simp]
theorem processedJobs_append :
    processedJobs (earlier ++ later) = processedJobs earlier ++ processedJobs later := by
  simp [processedJobs]

@[simp]
theorem jobResults_append :
    jobResults (earlier ++ later) = jobResults earlier ++ jobResults later := by
  simp [jobResults]

variable {earlier later}

theorem NoLifecycle.append (first : NoLifecycle earlier) (second : NoLifecycle later) :
    NoLifecycle (earlier ++ later) := by
  intro event mem
  rcases List.mem_append.mp mem with inEarlier | inLater
  · exact first event inEarlier
  · exact second event inLater

end Append

/-- The job queue along a record: jobs are enqueued at the end and taken from the head. -/
inductive Fifo : List Job → List Event → List Job → Prop where
  | nil {queue : List Job} : Fifo queue [] queue
  | call {queue rest : List Job} {event : Event} {trace : List Event}
      (notTaken : ∀ job, event.mark? ≠ some (.processJob job))
      (tail : Fifo (queue ++ event.enqueued) trace rest) : Fifo queue (event :: trace) rest
  | take {queue rest : List Job} {job : Job} {trace : List Event} (tail : Fifo queue trace rest) :
      Fifo (job :: queue) (⟨.mark (.processJob job), ()⟩ :: trace) rest

namespace Fifo

variable {queue middle rest : List Job} {earlier later trace : List Event}

theorem append (first : Fifo queue earlier middle) (second : Fifo middle later rest) :
    Fifo queue (earlier ++ later) rest := by
  induction first with
  | nil => exact second
  | call notTaken _ ih => exact .call notTaken (ih second)
  | take _ ih => exact .take (ih second)

theorem of_no_marks (queue : List Job) (noMarks : marks trace = []) :
    Fifo queue trace (queue ++ enqueuedJobs trace) := by
  induction trace generalizing queue with
  | nil =>
      rw [enqueuedJobs_nil, List.append_nil]
      exact .nil
  | cons event trace ih =>
      rw [marks_cons, List.append_eq_nil_iff] at noMarks
      rw [enqueuedJobs_cons, ← List.append_assoc]
      refine .call ?_ (ih (queue ++ event.enqueued) noMarks.2)
      intro job isMark
      rw [isMark] at noMarks
      cases noMarks.1

theorem mark {mark : Mark} (notTaken : ∀ job, mark ≠ .processJob job) :
    Fifo queue [⟨.mark mark, ()⟩] queue := by
  refine .call ?_ ?_
  · intro job isMark
    exact notTaken job (Option.some.inj isMark)
  · rw [show Event.enqueued ⟨.mark mark, ()⟩ = [] from rfl, List.append_nil]
    exact .nil

/-- Everything that was in the queue was either processed or is still there, in order. -/
theorem balance (replays : Fifo queue trace rest) :
    queue ++ enqueuedJobs trace = processedJobs trace ++ rest := by
  induction replays with
  | nil => simp [processedJobs]
  | @call queue rest event trace notTaken _ ih =>
      have notProcessed : (event.mark?.toList).filterMap Mark.processed? = [] := by
        cases isMark : event.mark? with
        | none => rfl
        | some mark =>
            cases mark with
            | processJob job => exact absurd isMark (notTaken job)
            | _ => rfl
      rw [enqueuedJobs_cons, ← List.append_assoc, ih, processedJobs, processedJobs, marks_cons,
        List.filterMap_append, notProcessed, List.nil_append]
  | take _ ih =>
      simp only [enqueuedJobs_cons, processedJobs, marks_cons] at ih ⊢
      rw [List.cons_append, show Event.enqueued ⟨.mark (.processJob _), ()⟩ = [] from rfl,
        List.nil_append, ih]
      rfl

theorem exists_of_append (replays : Fifo queue (earlier ++ later) rest) :
    ∃ middle, Fifo queue earlier middle ∧ Fifo middle later rest := by
  induction earlier generalizing queue with
  | nil => exact ⟨queue, .nil, replays⟩
  | cons event earlier ih =>
      cases replays with
      | call notTaken tail =>
          rcases ih tail with ⟨middle, first, second⟩
          exact ⟨middle, .call notTaken first, second⟩
      | take tail =>
          rcases ih tail with ⟨middle, first, second⟩
          exact ⟨middle, .take first, second⟩

end Fifo

/-- A record outside of scripts and jobs: the queue only gets longer. -/
structure Quiet (state : DriverState) (trace : List Event) (changed : DriverState) : Prop where
  noMarks : marks trace = []
  noLifecycle : NoLifecycle trace
  plain : ∀ event ∈ trace, event.isPlain = true
  jobQueue : changed.jobQueue = state.jobQueue ++ enqueuedJobs trace

namespace Quiet

variable {state middle changed : DriverState} {earlier later trace : List Event}

theorem append (first : Quiet state earlier middle) (second : Quiet middle later changed) :
    Quiet state (earlier ++ later) changed where
  noMarks := by rw [marks_append, first.noMarks, second.noMarks, List.append_nil]
  noLifecycle := first.noLifecycle.append second.noLifecycle
  plain := by
    intro event mem
    rcases List.mem_append.mp mem with inEarlier | inLater
    · exact first.plain event inEarlier
    · exact second.plain event inLater
  jobQueue := by
    rw [second.jobQueue, first.jobQueue, enqueuedJobs_append, List.append_assoc]

theorem fifo (quiet : Quiet state trace changed) : Fifo state.jobQueue trace changed.jobQueue := by
  rw [quiet.jobQueue]
  exact Fifo.of_no_marks _ quiet.noMarks

end Quiet

namespace Driver

variable {World α β : Type}

/-- A function all of whose records are quiet. -/
def IsQuiet (driver : Driver World α) : Prop :=
  ∀ state, driver.Traces state (fun trace _ changed => Quiet state trace changed) fun _ => False

theorem isQuiet_pure (result : α) : IsQuiet (pure result : Driver World α) := fun _ =>
  Routine.traces_pure ⟨rfl, nofun, nofun, (List.append_nil _).symm⟩

theorem IsQuiet.bind {driver : Driver World α} {next : α → Driver World β}
    (first : driver.IsQuiet) (second : ∀ result, (next result).IsQuiet) :
    (driver >>= next).IsQuiet := by
  intro state
  apply (first state).bind
  intro trace result changed quiet
  exact (second result changed).mono (fun _ _ _ => quiet.append) fun _ => id

theorem isQuiet_perform {call : Call}
    (nothing : ∀ reply, Event.mark? ⟨call, reply⟩ = none ∧ Event.isLifecycle ⟨call, reply⟩ = false ∧
      Event.isPlain ⟨call, reply⟩ = true ∧ Event.enqueued ⟨call, reply⟩ = []) :
    IsQuiet (perform call : Driver World call.Reply) := by
  intro state
  apply Routine.traces_perform
  intro reply
  refine ⟨?_, ?_, ?_, ?_⟩
  · rw [marks_cons, (nothing reply).1]
    rfl
  · intro event mem
    rw [List.mem_singleton.mp mem]
    exact (nothing reply).2.1
  · intro event mem
    rw [List.mem_singleton.mp mem]
    exact (nothing reply).2.2.1
  · rw [enqueuedJobs_cons, (nothing reply).2.2.2]
    simp

theorem traces_enqueueAll (jobs : List Job) (state : DriverState) :
    (enqueueAll jobs : Driver World Unit).Traces state
      (fun trace _ changed => trace = [] ∧ changed.jobQueue = state.jobQueue ++ jobs)
      fun _ => False := by
  induction jobs generalizing state with
  | nil => exact Routine.traces_pure ⟨rfl, (List.append_nil _).symm⟩
  | cons job jobs ih =>
      have first : (ecmaEnqueueJob job : Driver World Unit).Traces state
          (fun trace _ changed => trace = [] ∧ changed.jobQueue = state.jobQueue ++ [job])
          fun _ => False := fun _ _ => ⟨rfl, rfl⟩
      apply first.bind
      rintro trace result changed ⟨rfl, queue⟩
      apply (ih changed).mono
      · rintro more _ final ⟨rfl, finalQueue⟩
        exact ⟨rfl, by rw [finalQueue, queue, List.append_assoc, List.singleton_append]⟩
      · exact fun _ => id

/-- The one event of a call of user code, and what becomes of the queue. -/
theorem traces_userCode (call : Call) (ran : call.Reply → Ran α) (state : DriverState) :
    (userCode call ran : Driver World α).Traces state
      (fun trace result changed => ∃ reply, trace = [⟨call, reply⟩] ∧
        result = (ran reply).result ∧ changed.jobQueue = state.jobQueue ++ (ran reply).jobs)
      fun _ => False := by
  apply Routine.traces_perform_bind
  intro reply
  apply (traces_enqueueAll (ran reply).jobs _).bind
  rintro _ _ changed ⟨rfl, queue⟩
  exact Routine.traces_pure ⟨reply, rfl, rfl, queue⟩

/-- A call of user code first. -/
theorem traces_userCode_bind {call : Call} {ran : call.Reply → Ran α} {next : α → Driver World β}
    {state : DriverState} {post : List Event → β → DriverState → Prop}
    {stopped : List Event → Prop}
    (holds : ∀ reply changed, changed.jobQueue = state.jobQueue ++ (ran reply).jobs →
      (next (ran reply).result).Traces changed (fun more => post (⟨call, reply⟩ :: more))
        fun more => stopped (⟨call, reply⟩ :: more)) :
    (userCode call ran >>= next).Traces state post stopped := by
  apply ((traces_userCode call ran state).mono (fun _ _ _ => id) fun _ => False.elim).bind
  rintro _ _ changed ⟨reply, rfl, rfl, queue⟩
  exact holds reply changed queue

theorem isQuiet_userCode {call : Call} {ran : call.Reply → Ran α}
    (enqueues : ∀ reply, Event.mark? ⟨call, reply⟩ = none ∧
      Event.isLifecycle ⟨call, reply⟩ = false ∧ Event.isPlain ⟨call, reply⟩ = true ∧
      Event.enqueued ⟨call, reply⟩ = (ran reply).jobs) :
    IsQuiet (userCode call ran : Driver World α) := by
  intro state
  apply (traces_userCode call ran state).mono
  · rintro _ _ changed ⟨reply, rfl, _, queue⟩
    refine ⟨?_, ?_, ?_, ?_⟩
    · rw [marks_cons, (enqueues reply).1]
      rfl
    · intro event mem
      rw [List.mem_singleton.mp mem]
      exact (enqueues reply).2.1
    · intro event mem
      rw [List.mem_singleton.mp mem]
      exact (enqueues reply).2.2.1
    · rw [queue, enqueuedJobs_cons, (enqueues reply).2.2.2, enqueuedJobs_nil, List.append_nil]
  · exact fun _ => id

/-- An error is logged at every log level. -/
theorem traces_jerryLog_error (message : List UInt8) (state : DriverState) :
    (jerryLog .error message : Driver World Unit).Traces state
      (fun trace _ changed => trace = [⟨.log .error message, ()⟩] ∧ changed = state)
      fun _ => False := by
  apply Routine.traces_get_bind
  have lowest : LogLevel.error.toNat ≤ state.logLevel.toNat := Nat.zero_le _
  rw [if_pos lowest]
  exact Routine.traces_perform fun _ => ⟨rfl, rfl⟩

theorem isQuiet_jerryLog (level : LogLevel) (message : List UInt8) :
    IsQuiet (jerryLog level message : Driver World Unit) := by
  intro state
  apply Routine.traces_get_bind
  split_ifs
  · exact isQuiet_perform (fun _ => ⟨rfl, rfl, rfl, rfl⟩) _
  · exact isQuiet_pure () _

end Driver

end Cmsframe
