import Cmsframe.Report.Logging

/-!
# The reports of a rejection and of a backtrace

`cms_pp_unhandled_rejection` and `cms_pp_backtrace`. Both copy each string to a buffer of 64
bytes and pass it to the logger.
-/

namespace Cmsframe

open CString (upToNul upToNul_append_nul)

/-- What can go wrong in a report. -/
inductive ReportFault where
  | copying (fault : Fault)
  | logging (fault : LogFault)
  deriving DecidableEq

def copyReported (value : EcmaValue) : Except ReportFault Message :=
  (Message.copy value).mapError .copying

def logReported (current : ℕ) (level : LogLevel) (format : String) (arguments : List LogArgument) :
    Except ReportFault (List (List UInt8)) :=
  (jerryLog current level.toNat (asciiBytes format) arguments).mapError .logging

/-- The buffer as an argument of `jerry_log`. -/
def Message.argument (message : Message) : LogArgument := bufferArgument message.text

/-- `cms_pp_unhandled_rejection`; the reason is what `jerry_value_to_string` returns. -/
def cmsPpUnhandledRejection (current : ℕ) (reason : EcmaValue) :
    Except ReportFault (List (List UInt8)) :=
  match reason with
  | .exception _ _ _ =>
      logReported current .warning
        "Uncaught Promise rejection: (reason cannot be converted to string)\n" []
  | _ => do
      let message ← copyReported reason
      logReported current .warning "Uncaught Promise rejection: %s\n" [message.argument]

/-- An array of the engine: its length is an unsigned number of 32 bits. -/
structure ScriptArray where
  items : List EcmaValue
  fits : items.length < 2 ^ 32

/-- The loop of `cms_pp_backtrace`. -/
def backtraceLoop (current : ℕ) : ℕ → List EcmaValue → Except ReportFault (List (List UInt8))
  | _, [] => return []
  | idx, property :: properties => do
      let message ← copyReported property
      let texts ← logReported current .error " %u: %s\n"
        [.word (BitVec.ofNat 32 idx), message.argument]
      let later ← backtraceLoop current (idx + 1) properties
      return texts ++ later

/-- `cms_pp_backtrace`; `backtrace` is `jerry_backtrace`, and `lineInfo` whether the feature is
enabled. -/
def cmsPpBacktrace (current : ℕ) (lineInfo : Bool) (backtrace : UInt32 → ScriptArray)
    (depth : UInt32) : Except ReportFault (List (List UInt8)) :=
  if lineInfo then do
    let heading ← logReported current .error "Script backtrace (top %u):\n"
      [.word (BitVec.ofNat 32 depth.toNat)]
    let texts ← backtraceLoop current 0 (backtrace depth).items
    return heading ++ texts
  else
    return []

section Reports

variable {current : ℕ} {arguments : List LogArgument} {shown : List UInt8}

theorem copyReported_eq (value : EcmaValue) : copyReported value = .ok (copiedMessage value) := by
  rw [copyReported, Message.copy_eq]
  rfl

theorem logReported_shows {level : LogLevel} {format : String} (audible : ¬current < level.toNat)
    (renders : Renders (upToNul (asciiBytes format)) arguments shown) :
    ∃ texts, logReported current level format arguments = .ok texts ∧ texts.flatten = shown := by
  have shows := (jerryLog_iff current level.toNat (asciiBytes format) arguments shown).mpr
    (by rwa [if_neg audible])
  rcases shows with ⟨texts, logged, rfl⟩
  refine ⟨texts, ?_, rfl⟩
  rw [logReported, logged]
  rfl

theorem logReported_silent {level : LogLevel} (silent : current < level.toNat) (format : String)
    (arguments : List LogArgument) : logReported current level format arguments = .ok [] := by
  rw [logReported, jerryLog, if_pos silent]
  rfl

theorem backtraceLoop_shows (current : ℕ) {idx : ℕ} {items : List EcmaValue}
    (small : idx + items.length < 2 ^ 32) :
    ∃ texts, backtraceLoop current idx items = .ok texts ∧
      texts.flatten = (items.zipIdx idx).flatMap backtraceLine := by
  induction items generalizing idx with
  | nil => exact ⟨[], rfl, rfl⟩
  | cons item items ih =>
      rw [List.length_cons] at small
      have audible : ¬current < LogLevel.error.toNat := Nat.not_lt_zero current
      have line := @renders_line idx (by omega) item
      rcases @logReported_shows current [_, (copiedMessage item).argument] _ .error
        " %u: %s\n" audible line with ⟨texts, logged, shown⟩
      rcases @ih (idx + 1) (by omega) with ⟨later, loggedLater, shownLater⟩
      refine ⟨texts ++ later, ?_, ?_⟩
      · rw [backtraceLoop, copyReported_eq]
        change (logReported current .error " %u: %s\n" _ >>= _) = _
        rw [logged]
        change (backtraceLoop current (idx + 1) items >>= _) = _
        rw [loggedLater]
        rfl
      · rw [List.flatten_append, shown, shownLater, List.zipIdx_cons, List.flatMap_cons]

end Reports

/-- The backtrace is reported item by item, each cut to the buffer and at its first NUL, and
nothing is left out whatever the array holds. -/
theorem cmsPpBacktrace_shows (current : ℕ) (lineInfo : Bool) (backtrace : UInt32 → ScriptArray)
    (depth : UInt32) :
    ∃ texts, cmsPpBacktrace current lineInfo backtrace depth = .ok texts ∧
      texts.flatten = if lineInfo then
        asciiBytes "Script backtrace (top " ++ Decimal.decimal depth.toNat ++ asciiBytes "):\n" ++
          (backtrace depth).items.zipIdx.flatMap backtraceLine
      else [] := by
  cases lineInfo with
  | false => exact ⟨[], rfl, rfl⟩
  | true =>
      have audible : ¬current < LogLevel.error.toNat := Nat.not_lt_zero current
      have number := @Renders.number (asciiBytes "):\n") _ [] depth.toNat depth.toNat_lt
        (renders_plain (by decide) [])
      have heading := @Renders.append _ _ _ (asciiBytes "Script backtrace (top ") (by decide) number
      rcases @logReported_shows current _ _ .error "Script backtrace (top %u):\n" audible heading with
        ⟨texts, logged, shown⟩
      have few := (backtrace depth).fits
      rcases @backtraceLoop_shows current 0 (backtrace depth).items (by omega) with
        ⟨items, loggedItems, shownItems⟩
      refine ⟨texts ++ items, ?_, ?_⟩
      · rw [cmsPpBacktrace, if_pos rfl, logged]
        change (backtraceLoop current 0 (backtrace depth).items >>= _) = _
        rw [loggedItems]
        rfl
      · rw [List.flatten_append, shown, shownItems, if_pos rfl]
        simp only [List.append_assoc]

/-- What is said of the reason of a rejection. -/
def rejectionText : EcmaValue → List UInt8
  | .exception _ _ _ => asciiBytes "(reason cannot be converted to string)"
  | reason => upToNul (copiedText reason)

/-- A rejection is reported with its reason, as far as that can be converted, unless only errors
are logged. -/
theorem cmsPpUnhandledRejection_shows (current : ℕ) (reason : EcmaValue) :
    ∃ texts, cmsPpUnhandledRejection current reason = .ok texts ∧
      texts.flatten = if current < LogLevel.warning.toNat then []
        else asciiBytes "Uncaught Promise rejection: " ++ rejectionText reason ++
          asciiBytes "\n" := by
  by_cases silent : current < LogLevel.warning.toNat
  · refine ⟨[], ?_, by rw [if_pos silent]; rfl⟩
    cases reason with
    | exception => exact logReported_silent silent _ _
    | _ =>
        rw [cmsPpUnhandledRejection, copyReported_eq]
        · exact logReported_silent silent _ _
        · intro address value abort same
          cases same
  · rw [if_neg silent]
    have string := @Renders.string (asciiBytes "\n") _ [] (copiedText reason ++ [0]) (by simp)
      (renders_plain (by decide) [])
    rw [upToNul_append_nul (copiedText reason) []] at string
    have converted := @Renders.append _ _ _ (asciiBytes "Uncaught Promise rejection: ") (by decide)
      string
    rw [← List.append_assoc] at converted
    cases reason with
    | exception => exact logReported_shows silent (renders_plain (by decide) [])
    | _ =>
        rw [cmsPpUnhandledRejection, copyReported_eq]
        · exact logReported_shows silent converted
        · intro address value abort same
          cases same

end Cmsframe
