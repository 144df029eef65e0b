import Cmsframe.Main.Phases

/-!
# The run phase of `main`

The parts of a whole run: the options, the start of the engine, the scripts or the
interactive loop, the final processing of the job queue, and the stop of the engine.
-/

namespace Cmsframe

open Interaction

/-- Some result in a list is an exception. -/
def Threw {Item : Type} (results : List (Item × Completion ScriptValue)) : Prop :=
  ∃ result ∈ results, Throws result.2

theorem AllReturned.not_threw {Item : Type} {results : List (Item × Completion ScriptValue)}
    (returned : AllReturned results) : ¬ Threw results := by
  rintro ⟨result, mem, thrown, isError⟩
  rcases returned result mem with ⟨value, isOk⟩
  rw [isOk] at isError
  cases isError

/-- The items are taken in order, exactly up to the first that throws. -/
def UpToFirstException {Item : Type} (items : List Item)
    (results : List (Item × Completion ScriptValue)) : Prop :=
  (AllReturned results ∧ results.map Prod.fst = items) ∨
    ∃ earlier item thrown, results = earlier ++ [(item, .error thrown)] ∧
      AllReturned earlier ∧ results.map Prod.fst <+: items

/-- The calls of `main` before the scripts. -/
def startEvents (memStats : Bool) : List Event :=
  [⟨.jerryInit memStats, ()⟩, ⟨.registerGlobal (asciiBytes "assert"), ()⟩,
    ⟨.registerGlobal (asciiBytes "print"), ()⟩, ⟨.registerGlobal (asciiBytes "pp"), ()⟩]

/-- The record of a run from `jerry_init` on. -/
structure RunPhase (memStats : Bool) (files : List CString) (trace body jobs : List Event)
    (exitCode : ℕ) : Prop where
  parts : trace = startEvents memStats ++
    (body ++ ⟨.mark .runJobs, ()⟩ :: (jobs ++ [⟨.jerryCleanup, ()⟩]))
  noLifecycle : NoLifecycle body ∧ NoLifecycle jobs
  performed : Performed trace
  scripts : UpToFirstException files (scriptResults trace)
  executed : executedScripts trace = (scriptResults body).map Prod.fst
  noJobs : files ≠ [] → NoJobs body
  pending : ∃ pending, enqueuedJobs body = processedJobs body ++ pending ∧
    UpToFirstException (pending ++ enqueuedJobs jobs) (jobResults jobs)
  processed : processedJobs jobs = (jobResults jobs).map Prod.fst
  fifo : ∀ earlier, earlier <+: trace → processedJobs earlier <+: enqueuedJobs earlier
  fails : exitCode = Driver.exitCodeFail ↔ Threw (scriptResults trace) ∨ Threw (jobResults jobs)
  succeeds : exitCode = Driver.exitCodeOk ↔
    ¬ (Threw (scriptResults trace) ∨ Threw (jobResults jobs))

/-- What `main` does, depending on what the options say. -/
def Runs (trace : List Event) (exitCode : ℕ) : Except ℕ (Bool × List CString) → Prop
  | .error code => exitCode = code ∧ marks trace = [] ∧ NoLifecycle trace ∧ Performed trace
  | .ok (memStats, files) => ∃ options phase body jobs, trace = options ++ phase ∧
      marks options = [] ∧ NoLifecycle options ∧ Performed options ∧
      RunPhase memStats files phase body jobs exitCode

theorem Runs.performed {trace : List Event} {exitCode : ℕ}
    {options : Except ℕ (Bool × List CString)} (runs : Runs trace exitCode options) :
    Performed trace := by
  cases options with
  | error code => exact runs.2.2.2
  | ok settings =>
      rcases runs with ⟨options, phase, body, jobs, rfl, _, _, performed, run⟩
      exact performed.append run.performed

theorem ScriptPhase.upToFirstException {files : List CString} {queue rest : List Job}
    {trace : List Event} {exitCode : ℕ} (phase : ScriptPhase files queue trace exitCode rest) :
    UpToFirstException files (scriptResults trace) := by
  rcases phase.ends with ⟨_, all, returned⟩ |
    ⟨_, started, earlier, path, thrown, later, rfl, returned, silent, _⟩
  · exact .inl ⟨returned, phase.named.trans all⟩
  · right
    refine ⟨scriptResults earlier, path, thrown, ?_, returned, ?_⟩
    · rw [scriptResults_append, scriptResults, scriptResults, marks_cons, silent]
      rfl
    · rw [phase.named]
      exact started

theorem ScriptPhase.fails {files : List CString} {queue rest : List Job}
    {trace : List Event} {exitCode : ℕ} (phase : ScriptPhase files queue trace exitCode rest) :
    exitCode = Driver.exitCodeOk ∧ ¬ Threw (scriptResults trace) ∨
      exitCode = Driver.exitCodeFail ∧ Threw (scriptResults trace) := by
  rcases phase.ends with ⟨isOk, _, returned⟩ |
    ⟨isFail, _, earlier, path, thrown, later, rfl, _⟩
  · exact .inl ⟨isOk, returned.not_threw⟩
  · refine .inr ⟨isFail, (path, .error thrown), ?_, thrown, rfl⟩
    rw [scriptResults_append, scriptResults, scriptResults, marks_cons]
    exact List.mem_append_right _ (List.mem_cons_self ..)

theorem JobPhase.upToFirstException {queue rest : List Job} {trace : List Event}
    {result : Completion ScriptValue} (phase : JobPhase queue trace result rest) :
    UpToFirstException (queue ++ enqueuedJobs trace) (jobResults trace) := by
  have balance := phase.fifo.balance
  rcases phase.ends with ⟨_, returned, rfl⟩ | ⟨thrown, earlier, job, _, rfl, returned⟩
  · left
    refine ⟨returned, ?_⟩
    rw [phase.named, balance, List.append_nil]
  · right
    refine ⟨jobResults earlier, job, thrown, ?_, returned, ?_⟩
    · rw [jobResults_append]
      rfl
    · rw [phase.named, balance]
      exact List.prefix_append _ _

theorem JobPhase.throws_iff {queue rest : List Job} {trace : List Event}
    {result : Completion ScriptValue} (phase : JobPhase queue trace result rest) :
    Throws result ↔ Threw (jobResults trace) := by
  rcases phase.ends with ⟨⟨value, rfl⟩, returned, _⟩ | ⟨thrown, earlier, job, rfl, rfl, _⟩
  · exact ⟨nofun, returned.not_threw.elim⟩
  · refine ⟨fun _ => ⟨(job, .error thrown), ?_, thrown, rfl⟩, fun _ => ⟨thrown, rfl⟩⟩
    rw [jobResults_append]
    exact List.mem_append_right _ (List.mem_cons_self ..)

namespace Driver

variable {World : Type}

/-- A function all of whose records are quiet and enqueue nothing. -/
def IsIdle {α : Type} (driver : Driver World α) : Prop :=
  ∀ state, driver.Traces state
    (fun trace _ changed => Quiet state trace changed ∧ enqueuedJobs trace = []) fun _ => False

variable {α β : Type}

theorem isIdle_pure (result : α) : IsIdle (pure result : Driver World α) := fun _ =>
  Routine.traces_pure ⟨⟨rfl, nofun, nofun, (List.append_nil _).symm⟩, rfl⟩

theorem IsIdle.bind {driver : Driver World α} {next : α → Driver World β}
    (first : driver.IsIdle) (second : ∀ result, (next result).IsIdle) :
    (driver >>= next).IsIdle := by
  intro state
  apply (first state).bind
  rintro trace result changed ⟨quiet, nothing⟩
  apply (second result changed).mono
  · rintro more _ final ⟨moreQuiet, moreNothing⟩
    refine ⟨quiet.append moreQuiet, ?_⟩
    rw [enqueuedJobs_append, nothing, moreNothing, List.append_nil]
  · exact fun _ => id

theorem isIdle_jerryLog_error (message : List UInt8) :
    IsIdle (jerryLog .error message : Driver World Unit) := by
  intro state
  apply ((isQuiet_jerryLog .error message state).and (traces_jerryLog_error message state)).mono
  · rintro _ _ _ ⟨quiet, rfl, _⟩
    exact ⟨quiet, rfl⟩
  · exact fun _ => id

theorem isIdle_jerryLogSetLevel (level : LogLevel) :
    IsIdle (jerryLogSetLevel level : Driver World Unit) := by
  intro state
  apply Routine.traces_get_bind
  exact Routine.traces_set ⟨⟨rfl, nofun, nofun, (List.append_nil _).symm⟩, rfl⟩

/-- The options change the log level only. -/
theorem isIdle_parseOptions (name : Option CString) (memStats : Bool)
    (files options : List CString) :
    IsIdle (parseOptions name memStats files options :
      Driver World (Except ℕ (Bool × List CString))) := by
  have isInvalid : IsIdle (do
      jerryLog .error (asciiBytes "Error: wrong format or invalid argument\n")
      return .error exitCodeFail : Driver World (Except ℕ (Bool × List CString))) :=
    (isIdle_jerryLog_error _).bind fun _ => isIdle_pure _
  induction memStats, files, options using parseOptions.induct with
  | case1 => exact isIdle_pure _
  | case2 memStats files argument arguments isHelp =>
      unfold parseOptions
      simp only [isHelp]
      refine IsIdle.bind (fun state => ?_) fun _ => isIdle_pure _
      apply Routine.traces_perform
      intro _
      refine ⟨⟨rfl, noLifecycle_singleton rfl, ?_, (List.append_nil _).symm⟩, rfl⟩
      simp [Event.isPlain]
  | case3 memStats files argument arguments isStats ih =>
      unfold parseOptions
      simp only [isStats]
      exact (isIdle_jerryLogSetLevel _).bind fun _ => ih
  | case4 memStats files argument isLogLevel operand arguments level isLevel ih =>
      simp only [parseOptions, isLogLevel, isLevel]
      exact (isIdle_jerryLogSetLevel _).bind fun _ => ih
  | case5 memStats files argument isLogLevel operand arguments isNone =>
      simp only [parseOptions, isLogLevel, isNone]
      exact isInvalid
  | case6 memStats files argument isLogLevel =>
      simp only [parseOptions, isLogLevel]
      exact isInvalid
  | case7 memStats files argument arguments isFileName ih =>
      unfold parseOptions
      simp only [isFileName]
      exact ih

theorem isIdle_optionPhase (argv : List CString) :
    IsIdle (optionPhase argv : Driver World (Except ℕ (Bool × List CString))) := by
  rw [optionPhase]
  split_ifs
  · exact (isIdle_jerryLog_error _).bind fun _ => isIdle_pure _
  · exact isIdle_parseOptions _ _ _ _

/-- The record of the scripts, or of the interactive loop where there are none. -/
def BodyPhase (files : List CString) (queue : List Job) (trace : List Event) (exitCode : ℕ)
    (rest : List Job) : Prop :=
  if files.length = 0 then
    exitCode = exitCodeOk ∧ NoLifecycle trace ∧ NoScripts trace ∧ Performed trace ∧
      Fifo queue trace rest
  else
    ScriptPhase files queue trace exitCode rest

theorem traces_body (fuel : ℕ) (lines : List (List UInt8)) (files : List CString)
    (state : DriverState) :
    (if files.length = 0 then do
      jerryxRepl fuel (asciiBytes "jerry> ") lines
      return exitCodeOk
    else
      execScripts files : Driver World ℕ).Traces state
        (fun trace exitCode changed =>
          BodyPhase files state.jobQueue trace exitCode changed.jobQueue)
        (fun trace => Stopped fuel state.jobQueue trace ∨ ¬LegibleNames trace) := by
  unfold BodyPhase
  split_ifs with noFiles
  · apply ((isInteractive_jerryxRepl fuel _ lines state).mono (fun _ _ _ => id)
      fun _ => Or.inl).bind
    rintro trace _ changed ⟨noLifecycle, noScripts, performed, fifo⟩
    apply Routine.traces_pure
    rw [List.append_nil]
    exact ⟨rfl, noLifecycle, noScripts, performed, fifo⟩
  · exact (traces_execScripts files state).mono (fun _ _ _ => id) fun _ => Or.inr

/-- What the scripts did, and what the queue holds then. -/
theorem BodyPhase.record {files : List CString} {queue rest : List Job} {body : List Event}
    {exitCode : ℕ} (phase : BodyPhase files queue body exitCode rest) :
    NoLifecycle body ∧ Performed body ∧ Fifo queue body rest ∧
      UpToFirstException files (scriptResults body) ∧
      executedScripts body = (scriptResults body).map Prod.fst ∧ (files ≠ [] → NoJobs body) ∧
      (exitCode = exitCodeOk ∧ ¬ Threw (scriptResults body) ∨
        exitCode = exitCodeFail ∧ Threw (scriptResults body)) := by
  unfold BodyPhase at phase
  split_ifs at phase with noFiles
  · rcases phase with ⟨isOk, noLifecycle, ⟨noneExecuted, noResults⟩, performed, fifo⟩
    rw [List.length_eq_zero_iff] at noFiles
    rw [noResults, noneExecuted]
    refine ⟨noLifecycle, performed, fifo, .inl ⟨nofun, noFiles.symm⟩, rfl, absurd noFiles,
      .inl ⟨isOk, ?_⟩⟩
    rintro ⟨_, ⟨⟩, _⟩
  · exact ⟨phase.noLifecycle, phase.performed, phase.fifo, phase.upToFirstException,
      phase.named.symm, fun _ => phase.noJobs, phase.fails⟩

theorem fifo_startEvents (memStats : Bool) (queue : List Job) :
    Fifo queue (startEvents memStats) queue := by
  have replays := @Fifo.of_no_marks (startEvents memStats) queue rfl
  rw [show enqueuedJobs (startEvents memStats) = [] from rfl, List.append_nil] at replays
  exact replays

theorem performed_startEvents (memStats : Bool) : Performed (startEvents memStats) :=
  .plain rfl (.plain rfl (.plain rfl (.plain rfl .nil)))

theorem fifo_jerryCleanup (queue : List Job) :
    Fifo queue [⟨.jerryCleanup, ()⟩] queue := by
  have replays := @Fifo.of_no_marks [⟨.jerryCleanup, ()⟩] queue rfl
  rw [show enqueuedJobs [⟨.jerryCleanup, ()⟩] = [] from rfl, List.append_nil] at replays
  exact replays

theorem fifo_runJobs (queue : List Job) : Fifo queue [⟨.mark .runJobs, ()⟩] queue := by
  apply Fifo.mark
  intro job same
  cases same

/-- A job has been enqueued before it is processed. -/
theorem processedJobs_isPrefix_enqueued {trace earlier : List Event} {rest : List Job}
    (replays : Fifo [] trace rest) (isPrefix : earlier <+: trace) :
    processedJobs earlier <+: enqueuedJobs earlier := by
  rcases isPrefix with ⟨later, rfl⟩
  rcases replays.exists_of_append with ⟨middle, first, _⟩
  exact ⟨middle, first.balance.symm⟩

/-- The phases the record of a run is made of, from `jerry_init` on. -/
structure Assembled (memStats : Bool) (files : List CString) (trace body jobs : List Event)
    (exitCode : ℕ) : Prop where
  parts : trace = startEvents memStats ++
    (body ++ ⟨.mark .runJobs, ()⟩ :: (jobs ++ [⟨.jerryCleanup, ()⟩]))
  phases : ∃ bodyCode middle result rest, BodyPhase files [] body bodyCode middle ∧
    JobPhase middle jobs result rest ∧
    (exitCode = exitCodeFail ∧ Throws result ∨ exitCode = bodyCode ∧ ¬ Throws result)

theorem Assembled.runPhase {memStats : Bool} {files : List CString}
    {trace body jobs : List Event} {exitCode : ℕ}
    (assembled : Assembled memStats files trace body jobs exitCode) :
    RunPhase memStats files trace body jobs exitCode := by
  rcases assembled with ⟨rfl, bodyCode, middle, result, rest, bodyPhase, jobPhase, isCode⟩
  rcases bodyPhase.record with
    ⟨noLifecycle, bodyPerformed, bodyFifo, upToFirst, executed, noJobs, bodyFails⟩
  have marked : marks (startEvents memStats) = [] := rfl
  have scripts : scriptResults (startEvents memStats ++
      (body ++ ⟨.mark .runJobs, ()⟩ :: (jobs ++ [⟨.jerryCleanup, ()⟩]))) =
        scriptResults body := by
    have none := jobPhase.noScripts.2
    simp only [scriptResults, marks_append, marks_cons, List.filterMap_append] at none ⊢
    rw [marked, none]
    simp [Event.mark?, Mark.scriptResult?]
  have executedAll : executedScripts (startEvents memStats ++
      (body ++ ⟨.mark .runJobs, ()⟩ :: (jobs ++ [⟨.jerryCleanup, ()⟩]))) =
        executedScripts body := by
    have none := jobPhase.noScripts.1
    simp only [executedScripts, marks_append, marks_cons, List.filterMap_append] at none ⊢
    rw [marked, none]
    simp [Event.mark?, Mark.executed?]
  rw [jobPhase.throws_iff] at isCode
  have ends : exitCode = exitCodeFail ∧ (Threw (scriptResults body) ∨ Threw (jobResults jobs)) ∨
      exitCode = exitCodeOk ∧ ¬ (Threw (scriptResults body) ∨ Threw (jobResults jobs)) := by
    rcases isCode with ⟨isFail, threw⟩ | ⟨rfl, returned⟩
    · exact .inl ⟨isFail, .inr threw⟩
    · rw [or_iff_left returned]
      exact bodyFails.symm
  have distinct : exitCodeFail ≠ exitCodeOk := Nat.one_ne_zero
  refine ⟨rfl, ⟨noLifecycle, jobPhase.noLifecycle⟩, ?_, ?_, ?_, noJobs, ?_, jobPhase.named.symm,
    ?_, ?_, ?_⟩
  · exact (performed_startEvents memStats).append (bodyPerformed.append
      (.plain rfl (jobPhase.performed.append (.plain rfl .nil))))
  · rw [scripts]
    exact upToFirst
  · rw [executedAll]
    exact executed
  · exact ⟨middle, bodyFifo.balance, jobPhase.upToFirstException⟩
  · intro earlier isPrefix
    refine @processedJobs_isPrefix_enqueued _ _ rest ?_ isPrefix
    apply (fifo_startEvents memStats []).append
    apply bodyFifo.append
    apply (fifo_runJobs middle).append
    exact jobPhase.fifo.append (fifo_jerryCleanup rest)
  · rw [scripts]
    rcases ends with ⟨isFail, threw⟩ | ⟨isOk, returned⟩
    · exact iff_of_true isFail threw
    · rw [isOk]
      exact iff_of_false distinct.symm returned
  · rw [scripts]
    rcases ends with ⟨isFail, threw⟩ | ⟨isOk, returned⟩
    · rw [isFail]
      exact iff_of_false distinct (not_not_intro threw)
    · exact iff_of_true isOk returned

theorem traces_runPhase (fuel : ℕ) (lines : List (List UInt8)) (memStats : Bool)
    (files : List CString) {state : DriverState} (noJobs : state.jobQueue = []) :
    (runPhase fuel lines memStats files : Driver World ℕ).Traces state
      (fun trace exitCode _ => ∃ body jobs, Assembled memStats files trace body jobs exitCode)
      (fun trace => Stopped fuel [] trace ∨ ¬LegibleNames trace) := by
  apply Routine.traces_perform_bind
  intro _
  apply Routine.traces_perform_bind
  intro _
  apply Routine.traces_perform_bind
  intro _
  apply Routine.traces_perform_bind
  intro _
  have bodies := @traces_body World fuel lines files state
  rw [noJobs] at bodies
  apply (bodies.mono (fun _ _ _ => id) fun trace => ?_).bind
  · intro body bodyCode changed bodyPhase
    apply Routine.traces_perform_bind
    intro _
    have final := @traces_jerryRunJobs World fuel changed
    apply (final.mono (fun _ _ _ => id) fun trace => ?_).bind
    · intro jobs result last jobPhase
      apply Routine.traces_perform_bind
      intro _
      apply Routine.traces_pure
      refine ⟨body, jobs, rfl, bodyCode, _, result, _, bodyPhase, jobPhase, ?_⟩
      cases result with
      | error thrown => exact .inl ⟨rfl, thrown, rfl⟩
      | ok value => exact .inr ⟨rfl, not_throws_ok value⟩
    · intro stopped
      left
      apply Stopped.prepend (fifo_startEvents memStats [])
      apply Stopped.prepend bodyPhase.record.2.2.1
      exact Stopped.prepend (fifo_runJobs _) stopped
  · rintro (stopped | illegible)
    · exact .inl (Stopped.prepend (fifo_startEvents memStats []) stopped)
    · refine .inr fun legible => ?_
      exact illegible ((@legibleNames_append (startEvents memStats) trace).mp legible).2

/-- The record of a function of the driver, called first. -/
def traceOf {α : Type} (driver : Driver World α) (behaviour : Behaviour Call Call.Reply World)
    (world : World) : List Event :=
  (driver.observe behaviour.recorder initialState world :
    Outcome Event Fault ((α × DriverState) × World)).output

/-- A function of the driver, called first, returns. -/
def Returns {α : Type} (driver : Driver World α) (behaviour : Behaviour Call Call.Reply World)
    (world : World) (result : α) : Prop :=
  ∃ state after, (driver.observe behaviour.recorder initialState world).result =
    .ok ((result, state), after)

variable {behaviour : Behaviour Call Call.Reply World} {world : World}

/-- The options are read without end of fuel. -/
theorem optionPhase_returns (argv : List CString) :
    ∃ trace options state after,
      (optionPhase argv : Driver World (Except ℕ (Bool × List CString))).observe
        behaviour.recorder initialState world = ⟨trace, .ok ((options, state), after)⟩ ∧
      marks trace = [] ∧ NoLifecycle trace ∧ Performed trace ∧ enqueuedJobs trace = [] ∧
      state.jobQueue = [] := by
  have idle := @isIdle_optionPhase World argv initialState behaviour world
  rcases observed : (optionPhase argv : Driver World (Except ℕ (Bool × List CString))).observe
    behaviour.recorder initialState world with ⟨trace, fault | ⟨⟨options, state⟩, after⟩⟩
  · rw [observed] at idle
    exact idle.elim
  · rw [observed] at idle
    rcases idle with ⟨quiet, nothing⟩
    refine ⟨trace, options, state, after, rfl, quiet.noMarks, quiet.noLifecycle, quiet.performed,
      nothing, ?_⟩
    rw [quiet.jobQueue, nothing]
    rfl

/-- A run that returns is made of its phases. One that does not is stopped after `fuel` jobs, or
at the name of a script. -/
theorem main_assembled (behaviour : Behaviour Call Call.Reply World) (world : World)
    (lines : List (List UInt8)) (argv : List CString) (fuel : ℕ) :
    ∃ trace options, Returns (optionPhase argv) behaviour world options ∧ marks trace = [] ∧
      NoLifecycle trace ∧ Performed trace ∧
      match options with
      | .error code => Returns (main fuel lines argv) behaviour world code ∧
          traceOf (main fuel lines argv) behaviour world = trace
      | .ok (memStats, files) => ∃ phase,
          traceOf (main fuel lines argv) behaviour world = trace ++ phase ∧
            ((∃ exitCode body jobs, Returns (main fuel lines argv) behaviour world exitCode ∧
              Assembled memStats files phase body jobs exitCode) ∨
            (∀ exitCode, ¬ Returns (main fuel lines argv) behaviour world exitCode) ∧
              (fuel ≤ (enqueuedJobs (trace ++ phase)).length ∨
                ¬LegibleNames (trace ++ phase))) := by
  rcases @optionPhase_returns _ behaviour world argv with
    ⟨trace, options, state, after, observed, noMarks, noLifecycle, performed, nothing, noJobs⟩
  refine ⟨trace, options, ⟨state, after, by rw [observed]⟩, noMarks, noLifecycle, performed, ?_⟩
  simp only [traceOf, Returns, main, Routine.observe_bind, observed, Outcome.bind_ok,
    Outcome.result_prepend, Outcome.output_prepend]
  cases options with
  | error code => exact ⟨⟨state, after, rfl⟩, List.append_nil trace⟩
  | ok settings =>
      rcases settings with ⟨memStats, files⟩
      refine ⟨_, rfl, ?_⟩
      have run := traces_runPhase fuel lines memStats files noJobs behaviour after
      cases ended : ((runPhase fuel lines memStats files : Driver World ℕ).observe
        behaviour.recorder state after).result with
      | ok answer =>
          rw [ended] at run
          rcases run with ⟨body, jobs, assembled⟩
          exact .inl ⟨answer.1.1, body, jobs, ⟨answer.1.2, answer.2, rfl⟩, assembled⟩
      | error fault =>
          rw [ended] at run
          refine .inr ⟨?_, ?_⟩
          · rintro _ ⟨_, _, ⟨⟩⟩
          · rcases run with ⟨rest, fifo, enough⟩ | illegible
            · left
              have balance := fifo.balance
              rw [List.nil_append] at balance
              rw [enqueuedJobs_append, nothing, List.nil_append, balance, List.length_append]
              exact Nat.le_add_right_of_le enough
            · exact .inr fun legible => illegible (legibleNames_append.mp legible).2

/-- The reaction of a resolved promise without a handler; its capability is the object at
address 1, the argument the integer 0. -/
def reaction : Job :=
  .promiseReaction (.ofObject ⟨1, none⟩) ⟨.simple .true, rfl⟩ ⟨.integer 0, rfl⟩

/-- Every script can be read and enqueues one reaction, and what the `resolve` function of its
capability does is `resolved`. -/
def reacting (resolved : Completion ScriptValue) : Behaviour Call Call.Reply Unit :=
  fun call world => (match call with
    | .mark _ | .log .. | .printHelp _ | .jerryInit _ | .registerGlobal _ | .jerryCleanup
    | .printBuffer _ => ()
    | .sourceRead _ => some []
    | .throwSz .. => ⟨.ofObject ⟨2, none⟩, false⟩
    | .parse .. => .ok (.ofObject ⟨3, none⟩)
    | .run _ => ⟨.ok .undefined, [reaction]⟩
    | .callResolve .. => ⟨resolved, []⟩
    | .callHandler .. | .callReject .. | .runExecutor .. => ⟨.ok .undefined, []⟩
    | .awaitContinue .. | .nextTask _ => ⟨none, []⟩
    | .resume .. => ⟨none, []⟩
    | .asyncExit .. => ⟨.undefined, []⟩
    | .asyncGeneratorFinalize .. => ⟨(), []⟩
    | .printValue _ => ⟨.ok (), []⟩
    | .describe _ => ⟨[], []⟩
    | .backtrace _ => ⟨[], []⟩
    | .rejectPromise .. => ⟨(), []⟩, world)

/-- What the `resolve` function throws. -/
def refusal : Thrown := ⟨⟨.integer 7, rfl⟩, false⟩

/-- `cmsframe a.js`. -/
def oneFile : List CString := [asciiBytes "cmsframe", asciiBytes "a.js"]

end Driver

end Cmsframe
