import Cmsframe.Log.Shown
import Cmsframe.Report.Texts

/-!
# The reporter and the logger

The reports are written through `jerry_log`. Every text that the model of the unhandled
exception report logs is what the logger shows for one of the formats in the source, and the
reports of a rejection and of a backtrace are given with their formats.
-/

namespace Cmsframe

open CString (upToNul upToNul_append_nul upToNul_eq_self)

/-- A call of `jerry_log` at the level of errors. -/
structure LogCall where
  format : String
  arguments : List LogArgument

/-- The call shows the text, at every log level that is set. -/
def LogCall.Writes (call : LogCall) (shown : List UInt8) : Prop :=
  ∀ current, Shows (jerryLog current LogLevel.error.toNat (asciiBytes call.format) call.arguments)
    shown

/-- A buffer with the terminating zero behind what has been copied to it. -/
def bufferArgument (copied : List UInt8) : LogArgument := .pointer (copied ++ [0])

/-- The calls for an excerpt. -/
def excerptCalls (source : List UInt8) (line column : ℕ) : List LogCall :=
  (printedBytes source line).map (fun byte => ⟨"%c", [.word (BitVec.ofNat 32 byte.toNat)]⟩) ++
    ⟨"\n", []⟩ :: (List.replicate (column - 1) ⟨"~", []⟩ ++ [⟨"^\n\n", []⟩])

/-- The calls for an attempt to show an excerpt. -/
def attemptCalls (sources : Sources) (attempt : Option Attempt) : List LogCall :=
  match attempt with
  | none => []
  | some attempt =>
      match sources attempt.path with
      | none => []
      | some source => excerptCalls source attempt.line attempt.column

/-- The call for an item of the backtrace. -/
def itemCall (item : EcmaValue × ℕ) : LogCall :=
  ⟨" %u: %s\n", [.word (BitVec.ofNat 32 item.2), bufferArgument (copiedText item.1)]⟩

/-- All calls of `cms_pp_unhandled_exception`, in this order. -/
def reportCalls (sources : Sources) (attempt : Option Attempt) (exception : ReportedException) :
    List LogCall :=
  attemptCalls sources attempt ++
    ⟨"Unhandled exception: %s\n", [bufferArgument (copiedText exception.string)]⟩ ::
      (reportedItems exception.stack).map itemCall

section Formats

variable {format shown : List UInt8} {arguments : List LogArgument}

theorem LogCall.writes_of_renders {format : String} (noNul : 0 ∉ asciiBytes format)
    (renders : Renders (asciiBytes format) arguments shown) :
    LogCall.Writes ⟨format, arguments⟩ shown := by
  intro current
  apply (jerryLog_iff current LogLevel.error.toNat _ arguments shown).mpr
  have atLeastError : ¬current < LogLevel.error.toNat := Nat.not_lt_zero current
  rw [if_neg atLeastError, upToNul_eq_self noNul]
  exact renders

/-- Literal text is shown as it stands. -/
theorem Renders.append {literal : List UInt8} (plain : 0x25 ∉ literal)
    (renders : Renders format arguments shown) :
    Renders (literal ++ format) arguments (literal ++ shown) := by
  induction literal with
  | nil => exact renders
  | cons character literal ih =>
      apply Renders.literal
      · exact fun same => plain (same ▸ List.mem_cons_self)
      · exact ih fun mem => plain (List.mem_cons_of_mem _ mem)

theorem renders_plain {literal : List UInt8} (plain : 0x25 ∉ literal)
    (arguments : List LogArgument) : Renders literal arguments literal := by
  have renders := Renders.append plain (.done arguments)
  rw [List.append_nil] at renders
  exact renders

/-- A string in the buffer is shown up to its end. -/
theorem Renders.string {memory : List UInt8} (terminated : 0 ∈ memory)
    (renders : Renders format arguments shown) :
    Renders (0x25 :: 0x73 :: format) (.pointer memory :: arguments) (upToNul memory ++ shown) :=
  .directive (readModifiers_iff.mp rfl) (.string rfl terminated) renders

theorem Renders.number {number : ℕ} (small : number < 2 ^ 32)
    (renders : Renders format arguments shown) :
    Renders (0x25 :: 0x75 :: format) (.word (BitVec.ofNat 32 number) :: arguments)
      (Decimal.decimal number ++ shown) := by
  have toNat : (BitVec.ofNat 32 number).toNat = number := by
    rw [BitVec.toNat_ofNat]
    exact Nat.mod_eq_of_lt small
  have written : Radix.padded 0x20 0 (Radix.text 10 (BitVec.ofNat 32 number).toNat) =
      Decimal.decimal number := by
    rw [toNat, Radix.padded_of_le (Nat.zero_le _), Radix.text_ten]
  rw [← written]
  exact .directive (readModifiers_iff.mp rfl) (.unsigned (Nat.zero_le 63)) renders

end Formats

section Calls

variable {sources : Sources}

theorem writes_character (byte : UInt8) :
    LogCall.Writes ⟨"%c", [.word (BitVec.ofNat 32 byte.toNat)]⟩ (logChar byte) := by
  have value : UInt8.ofNat (BitVec.ofNat 32 byte.toNat).toNat = byte := by
    have bound := byte.toNat_lt
    rw [BitVec.toNat_ofNat, Nat.mod_eq_of_lt (by omega), UInt8.ofNat_toNat]
  apply LogCall.writes_of_renders (by decide)
  by_cases isNul : byte = 0
  · have hidden : logChar byte = [] := by
      rw [isNul]
      rfl
    have modifies : Modifies [0x63] [.word (BitVec.ofNat 32 byte.toNat)] ⟨0x20, 0, 0⟩
        (0x63 :: ([] ++ [])) [.word (BitVec.ofNat 32 byte.toNat)] := readModifiers_iff.mp rfl
    rw [hidden]
    exact .nul modifies (value.trans isNul) (by simp) (by simp) (.inr (by simp)) (.done [])
  · have single : logChar byte = [byte] := upToNul_eq_self (by simpa using Ne.symm isNul)
    have modifies : Modifies [0x63] [.word (BitVec.ofNat 32 byte.toNat)] ⟨0x20, 0, 0⟩
        [0x63] [.word (BitVec.ofNat 32 byte.toNat)] := readModifiers_iff.mp rfl
    have renders := Renders.directive modifies (.character (by rwa [value])) (.done [])
    rw [value] at renders
    rw [single]
    exact renders

theorem writes_plain {format : String} (noNul : 0 ∉ asciiBytes format)
    (plain : 0x25 ∉ asciiBytes format) : LogCall.Writes ⟨format, []⟩ (asciiBytes format) :=
  LogCall.writes_of_renders noNul (renders_plain plain [])

/-- A string behind a heading, with a line feed. -/
theorem renders_headed {heading : List UInt8} (plain : 0x25 ∉ heading) (copied : List UInt8) :
    Renders (heading ++ asciiBytes "%s\n") [bufferArgument copied]
      (heading ++ (upToNul copied ++ asciiBytes "\n")) := by
  have string := @Renders.string (asciiBytes "\n") _ [] (copied ++ [0]) (by simp)
    (renders_plain (by decide) [])
  rw [upToNul_append_nul copied []] at string
  exact Renders.append plain string

theorem renders_line {index : ℕ} (small : index < 2 ^ 32) (item : EcmaValue) :
    Renders (asciiBytes " %u: %s\n")
      [.word (BitVec.ofNat 32 index), bufferArgument (copiedText item)]
      (backtraceLine (item, index)) := by
  have string := @renders_headed (asciiBytes ": ") (by decide) (copiedText item)
  have numbered := @Renders.append _ _ _ (asciiBytes " ") (by decide)
    (Renders.number small string)
  rw [backtraceLine]
  simp only [List.append_assoc]
  exact numbered

theorem writes_exception (copied : List UInt8) :
    LogCall.Writes ⟨"Unhandled exception: %s\n", [bufferArgument copied]⟩
      (Driver.unhandledException (upToNul copied)) := by
  have headed := @renders_headed (asciiBytes "Unhandled exception: ") (by decide) copied
  apply LogCall.writes_of_renders (by decide)
  rw [Driver.unhandledException, List.append_assoc]
  exact headed

theorem writes_excerpt (source : List UInt8) (line column : ℕ) :
    List.Forall₂ LogCall.Writes (excerptCalls source line column)
      (excerptTexts source line column) := by
  apply List.rel_append
  · rw [List.forall₂_map_left_iff, List.forall₂_map_right_iff, List.forall₂_same]
    exact fun byte _ => writes_character byte
  · refine .cons (writes_plain (by decide) (by decide)) (List.rel_append ?_ ?_)
    · induction column - 1 with
      | zero => exact .nil
      | succ column ih => exact .cons (writes_plain (by decide) (by decide)) ih
    · exact .cons (writes_plain (by decide) (by decide)) .nil

theorem writes_attempt (attempt : Option Attempt) :
    List.Forall₂ LogCall.Writes (attemptCalls sources attempt) (attemptTexts sources attempt) := by
  cases attempt with
  | none => exact .nil
  | some attempt =>
      rw [attemptCalls, attemptTexts]
      cases sources attempt.path with
      | none => exact .nil
      | some source => exact writes_excerpt source attempt.line attempt.column

theorem writes_items (stack : Option (List EcmaValue)) :
    List.Forall₂ LogCall.Writes ((reportedItems stack).map itemCall)
      ((reportedItems stack).map backtraceLine) := by
  rw [List.forall₂_map_left_iff, List.forall₂_map_right_iff, List.forall₂_same]
  rintro ⟨item, index⟩ mem
  have inStack := List.mem_of_mem_filter mem
  have small := List.snd_lt_of_mem_zipIdx inStack
  have few : ((stack.getD []).take 32).length ≤ 32 := List.length_take_le 32 _
  apply LogCall.writes_of_renders (by decide)
  exact renders_line (by omega) item

end Calls

/-- The report of an unhandled exception is what the logger shows for the calls of the source,
one text for each, whatever the exception, the file and the log level. -/
theorem cmsPpUnhandledException_logged (sources : Sources) (exception : ReportedException) :
    ∃ location report, Located (copiedText exception.string) location ∧
      cmsPpUnhandledException sources exception = .ok report ∧
      report.attempt = attemptFor exception location ∧
      List.Forall₂ LogCall.Writes (reportCalls sources report.attempt exception)
        report.logged := by
  rcases exists_located (copiedText exception.string) with ⟨location, located⟩
  refine ⟨location, _, located, cmsPpUnhandledException_texts located, rfl, ?_⟩
  apply List.rel_append (writes_attempt _)
  exact .cons (writes_exception _) (writes_items exception.stack)

end Cmsframe
