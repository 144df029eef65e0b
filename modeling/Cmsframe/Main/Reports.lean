import Cmsframe.Main.RunPhase

/-!
# Reported exceptions

The exceptions that make `main` fail are those of a script and those of a job of the final
processing. The first are reported. After the second only `jerry_cleanup` is called.
-/

namespace Cmsframe

open Interaction

section Each

variable {Item : Type} {result? : Mark → Option (Item × Completion ScriptValue)}
  {earlier later trace : List Event}

/-- The exception an event ends a script or a job with. -/
def Event.exception? (result? : Mark → Option (Item × Completion ScriptValue)) (event : Event) :
    Option Thrown :=
  match event.mark?.bind result? with
  | some (_, .error thrown) => some thrown
  | _ => none

/-- Every exception is reported in what follows it. -/
def EachReported (result? : Mark → Option (Item × Completion ScriptValue)) :
    List Event → Prop
  | [] => True
  | event :: later =>
      (∀ thrown, event.exception? result? = some thrown → Reports thrown later) ∧
        EachReported result? later

theorem eachReported_cons_of_none {event : Event} (none : event.exception? result? = .none)
    (reported : EachReported result? later) : EachReported result? (event :: later) := by
  refine ⟨?_, reported⟩
  rw [none]
  rintro _ ⟨⟩

theorem Reports.append_right {thrown : Thrown} (reports : Reports thrown earlier)
    (later : List Event) : Reports thrown (earlier ++ later) := by
  rcases reports with ⟨first, ran, last, rfl⟩
  exact ⟨first, ran, last ++ later, by simp⟩

theorem Reports.append_left {thrown : Thrown} (reports : Reports thrown later)
    (earlier : List Event) : Reports thrown (earlier ++ later) := by
  rcases reports with ⟨first, ran, last, rfl⟩
  exact ⟨earlier ++ first, ran, last, by simp⟩

theorem EachReported.append (first : EachReported result? earlier)
    (second : EachReported result? later) : EachReported result? (earlier ++ later) := by
  induction earlier with
  | nil => exact second
  | cons event earlier ih =>
      refine ⟨?_, ih first.2⟩
      intro thrown isThrown
      exact (first.1 thrown isThrown).append_right later

theorem eachReported_of_returned
    (returned : AllReturned ((marks trace).filterMap result?)) : EachReported result? trace := by
  induction trace with
  | nil => trivial
  | cons event trace ih =>
      rw [marks_cons, List.filterMap_append] at returned
      refine ⟨?_, ih fun result mem => returned result (List.mem_append_right _ mem)⟩
      intro thrown isThrown
      rw [Event.exception?] at isThrown
      cases isMark : event.mark? with
      | none =>
          rw [isMark] at isThrown
          cases isThrown
      | some mark =>
          rw [isMark] at isThrown returned
          cases isResult : result? mark with
          | none =>
              rw [Option.bind_some, isResult] at isThrown
              cases isThrown
          | some result =>
              have mem : result ∈ [mark].filterMap result? := by simp [isResult]
              rcases returned result (List.mem_append_left _ mem) with ⟨value, isOk⟩
              rcases result with ⟨item, completion⟩
              rw [Option.bind_some, isResult] at isThrown
              cases isOk
              cases isThrown

/-- What is reported at last has a report after it. -/
theorem EachReported.reports {event : Event} {thrown : Thrown}
    (each : EachReported result? (earlier ++ event :: later))
    (isThrown : event.exception? result? = some thrown) : Reports thrown later := by
  induction earlier with
  | nil => exact each.1 thrown isThrown
  | cons _ earlier ih => exact ih each.2

end Each

/-- What follows the call of `jerry_run_jobs` in `main`. -/
def finalProcessing (trace : List Event) : List Event :=
  (trace.dropWhile fun event => !event.isRunJobs).tail

/-- Every exception of a script and of a job of the final processing is reported before `main`
returns, and no run fails without a report. -/
structure NoSilentFailure (trace : List Event) (exitCode : ℕ) : Prop where
  scripts : EachReported Mark.scriptResult? trace
  jobs : EachReported Mark.jobResult? (finalProcessing trace)
  diagnosed : exitCode = Driver.exitCodeFail → ∃ thrown, Reports thrown trace

theorem isRunJobs_of_noLifecycle {trace : List Event} (noLifecycle : NoLifecycle trace) :
    ∀ event ∈ trace, event.isRunJobs = false := by
  intro event mem
  have other := noLifecycle event mem
  rcases event with ⟨call, reply⟩
  cases call with
  | mark mark =>
      cases mark with
      | runJobs => cases other
      | _ => rfl
  | _ => rfl

theorem finalProcessing_append {earlier : List Event}
    (other : ∀ event ∈ earlier, event.isRunJobs = false) (later : List Event) :
    finalProcessing (earlier ++ ⟨.mark .runJobs, ()⟩ :: later) = later := by
  rw [finalProcessing, List.dropWhile_append_of_pos]
  · rfl
  · intro event mem
    rw [other event mem]
    rfl

theorem not_reports_singleton {thrown : Thrown} {event : Event} : ¬ Reports thrown [event] := by
  rintro ⟨earlier, ran, later, same⟩
  have lengths := congrArg List.length same
  simp only [List.length_append, List.length_cons, List.length_nil] at lengths
  omega

theorem ScriptPhase.reported {files : List CString} {queue rest : List Job} {trace : List Event}
    {exitCode : ℕ} (phase : ScriptPhase files queue trace exitCode rest) :
    EachReported Mark.scriptResult? trace ∧
      (exitCode = Driver.exitCodeFail → ∃ thrown, Reports thrown trace) := by
  rcases phase.ends with ⟨rfl, _, returned⟩ |
    ⟨_, _, earlier, path, thrown, later, rfl, returned, silent, reports⟩
  · exact ⟨eachReported_of_returned returned, nofun⟩
  · constructor
    · apply (eachReported_of_returned returned).append
      refine ⟨?_, eachReported_of_returned ?_⟩
      · intro other same
        cases same
        exact reports
      · rw [silent]
        exact allReturned_nil
    · intro _
      rw [List.append_cons]
      exact ⟨thrown, reports.append_left _⟩

theorem JobPhase.reported_iff {queue rest : List Job} {trace : List Event}
    {result : Completion ScriptValue} (phase : JobPhase queue trace result rest) :
    EachReported Mark.jobResult? (trace ++ [⟨.jerryCleanup, ()⟩]) ↔ ¬ Throws result := by
  rcases phase.ends with ⟨⟨value, rfl⟩, returned, _⟩ | ⟨thrown, earlier, job, rfl, rfl, _⟩
  · refine iff_of_true ?_ (not_throws_ok value)
    exact (eachReported_of_returned returned).append (eachReported_cons_of_none rfl trivial)
  · refine iff_of_false ?_ (not_not_intro ⟨thrown, rfl⟩)
    intro each
    rw [List.append_assoc] at each
    exact not_reports_singleton (each.reports rfl)

namespace Driver

theorem BodyPhase.reported {files : List CString} {queue rest : List Job} {body : List Event}
    {exitCode : ℕ} (phase : BodyPhase files queue body exitCode rest) :
    EachReported Mark.scriptResult? body ∧
      (exitCode = exitCodeFail → ∃ thrown, Reports thrown body) := by
  unfold BodyPhase at phase
  split_ifs at phase with noFiles
  · rcases phase with ⟨rfl, _, ⟨_, noResults⟩, _, _⟩
    refine ⟨eachReported_of_returned ?_, nofun⟩
    change AllReturned (scriptResults body)
    rw [noResults]
    exact allReturned_nil
  · exact phase.reported

variable {World : Type}

/-- Whether the failures of the run phase are reported. -/
theorem Assembled.reported_iff {memStats : Bool} {files : List CString}
    {options phase body jobs : List Event} {exitCode : ℕ} (noMarks : marks options = [])
    (noLifecycle : NoLifecycle options)
    (assembled : Assembled memStats files phase body jobs exitCode) :
    NoSilentFailure (options ++ phase) exitCode ↔
      ¬ Escapes (finalProcessing (options ++ phase)) := by
  rcases assembled with ⟨rfl, bodyCode, middle, result, rest, bodyPhase, jobPhase, isCode⟩
  have final : finalProcessing (options ++ (startEvents memStats ++
      (body ++ ⟨.mark .runJobs, ()⟩ :: (jobs ++ [⟨.jerryCleanup, ()⟩])))) =
        jobs ++ [⟨.jerryCleanup, ()⟩] := by
    rw [← List.append_assoc, ← List.append_assoc]
    apply finalProcessing_append
    intro event mem
    rcases List.mem_append.mp mem with before | inBody
    · rcases List.mem_append.mp before with inOptions | inStart
      · exact isRunJobs_of_noLifecycle noLifecycle event inOptions
      · simp only [startEvents, List.mem_cons, List.not_mem_nil, or_false] at inStart
        rcases inStart with rfl | rfl | rfl | rfl <;> rfl
    · exact isRunJobs_of_noLifecycle bodyPhase.record.1 event inBody
  have escapes : Escapes (jobs ++ [⟨.jerryCleanup, ()⟩]) ↔ Throws result := by
    rw [escapes_append, jobPhase.escapes]
    simp [Event.isEscape, not_escapes_nil]
  rw [final, escapes]
  constructor
  · intro noSilent
    have each := noSilent.jobs
    rw [final] at each
    exact jobPhase.reported_iff.mp each
  · intro returned
    have quietScripts : ∀ trace, scriptResults trace = [] →
        EachReported Mark.scriptResult? trace := by
      intro trace none
      apply eachReported_of_returned
      change AllReturned (scriptResults trace)
      rw [none]
      exact allReturned_nil
    refine ⟨?_, ?_, ?_⟩
    · apply (quietScripts options (noScripts_of_no_marks noMarks).2).append
      apply (quietScripts (startEvents memStats) rfl).append
      apply bodyPhase.reported.1.append
      apply eachReported_cons_of_none rfl
      exact (quietScripts jobs jobPhase.noScripts.2).append (eachReported_cons_of_none rfl trivial)
    · rw [final]
      exact jobPhase.reported_iff.mpr returned
    · intro isFail
      rcases isCode with ⟨_, threw⟩ | ⟨rfl, _⟩
      · exact absurd threw returned
      · rcases bodyPhase.reported.2 isFail with ⟨thrown, reports⟩
        have inBody := reports.append_right (⟨.mark .runJobs, ()⟩ :: (jobs ++ [⟨.jerryCleanup, ()⟩]))
        exact ⟨thrown, (inBody.append_left (startEvents memStats)).append_left options⟩

theorem Returns.unique {α : Type} {driver : Driver World α}
    {behaviour : Behaviour Call Call.Reply World} {world : World} {first second : α}
    (one : Returns driver behaviour world first) (other : Returns driver behaviour world second) :
    first = second := by
  rcases one with ⟨_, _, one⟩
  rcases other with ⟨_, _, other⟩
  rw [one] at other
  cases other
  rfl

/-- A run reports its failures exactly if no exception escapes from a job of the final
processing. -/
theorem noSilentFailure_iff (behaviour : Behaviour Call Call.Reply World) (world : World)
    (lines : List (List UInt8)) (argv : List CString) (fuel : ℕ) {memStats : Bool}
    {files : List CString} {exitCode : ℕ}
    (passes : Returns (optionPhase argv) behaviour world (.ok (memStats, files)))
    (returned : Returns (main fuel lines argv) behaviour world exitCode) :
    NoSilentFailure (traceOf (main fuel lines argv) behaviour world) exitCode ↔
      ¬ Escapes (finalProcessing (traceOf (main fuel lines argv) behaviour world)) := by
  rcases main_assembled behaviour world lines argv fuel with
    ⟨trace, options, parsed, noMarks, noLifecycle, _, run⟩
  cases parsed.unique passes
  rcases run with ⟨phase, record, ⟨other, body, jobs, same, assembled⟩ | ⟨stopped, _⟩⟩
  · cases returned.unique same
    rw [record]
    exact assembled.reported_iff noMarks noLifecycle
  · exact absurd returned (stopped exitCode)

theorem noSilentFailure_iff_oneFile :
    NoSilentFailure (traceOf (main 2 [] oneFile) (reacting (.ok ⟨.undefined, rfl⟩)) ()) exitCodeOk ↔
      ¬ Escapes (finalProcessing
        (traceOf (main 2 [] oneFile) (reacting (.ok ⟨.undefined, rfl⟩)) ())) :=
  @noSilentFailure_iff Unit _ () [] oneFile 2 false [asciiBytes "a.js"] exitCodeOk
    ⟨_, _, rfl⟩ ⟨_, _, rfl⟩

/-- The script returns, its reaction throws, and `main` fails without a report. -/
theorem not_noSilentFailure_oneFile :
    Returns (optionPhase oneFile) (reacting (.error refusal)) ()
        (.ok (false, [asciiBytes "a.js"])) ∧
      Returns (main 2 [] oneFile) (reacting (.error refusal)) () exitCodeFail ∧
      ¬ NoSilentFailure (traceOf (main 2 [] oneFile) (reacting (.error refusal)) ())
        exitCodeFail := by
  refine ⟨⟨_, _, rfl⟩, ⟨_, _, rfl⟩, ?_⟩
  intro noSilent
  -- the record of the job: its two marks with the call of `resolve` between them
  have afterJob : Reports refusal [⟨.jerryCleanup, ()⟩] := noSilent.jobs.2.2.1 refusal rfl
  exact not_reports_singleton afterJob

end Driver

end Cmsframe
