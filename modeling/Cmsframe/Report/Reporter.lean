import Cmsframe.Main.Driver
import Cmsframe.Report.Scanner

/-!
# The report of an unhandled exception

`cms_pp_unhandled_exception` in a build with error messages: the excerpt of the source for
a syntax error, the text of the exception, and its backtrace. What scripts decide on the
way (the text, the items of the backtrace) and the file system are parameters. Every
index into the message and into the source is checked in the model, so a run without a
fault has stayed inside both.
-/

namespace Cmsframe

open Unicode (CodeUnit codePoints utf8 encode)

/-- `CMS_SYNTAX_ERROR_MAX_LINE_LENGTH`. -/
def cmsSyntaxErrorMaxLineLength : ℕ := 256

/-- `source_p[pos]`. -/
def sourceByte (source : List UInt8) (pos : ℕ) : Except Fault UInt8 :=
  match source[pos]? with
  | some byte => .ok byte
  | none => .error .outOfBounds

/-- The loop that seeks the line. -/
def seekLine (source : List UInt8) (errLine : ℕ) : ℕ → ℕ → ℕ → Except Fault ℕ
  | 0, _, _ => .error .outOfFuel
  | fuel + 1, currLine, pos =>
      if pos < source.length ∧ currLine < errLine then do
        let byte ← sourceByte source pos
        seekLine source errLine fuel (if byte = 0x0A then currLine + 1 else currLine) (pos + 1)
      else
        return pos

/-- `jerry_log` with the format `%c`: a NUL ends the formatted text. -/
def logChar (byte : UInt8) : List UInt8 := CString.upToNul [byte]

/-- The loop that prints the line, by the number of characters that may still be printed. -/
def printLine (source : List UInt8) : ℕ → ℕ → Except Fault (List (List UInt8))
  | 0, _ => return []
  | room + 1, pos =>
      if pos < source.length then do
        let byte ← sourceByte source pos
        if byte ≠ 0x0A then
          let later ← printLine source room (pos + 1)
          return logChar byte :: later
        else
          return []
      else
        return []

/-- `--counter` for an `unsigned int`. -/
def decrement (counter : ℕ) : ℕ := if counter = 0 then 2 ^ 32 - 1 else counter - 1

/-- The loop in front of the caret. -/
def drawCaret : ℕ → ℕ → Except Fault (List (List UInt8))
  | 0, _ => .error .outOfFuel
  | fuel + 1, errCol => do
      let errCol := decrement errCol
      if errCol ≠ 0 then
        let later ← drawCaret fuel errCol
        return asciiBytes "~" :: later
      else
        return []

/-- An attempt to show an excerpt: the file that is opened, the line that is sought and the
column of the caret. -/
structure Attempt where
  path : List UInt8
  line : ℕ
  column : ℕ
  deriving DecidableEq

/-- `jerry_port_source_read`. -/
abbrev Sources := List UInt8 → Option (List UInt8)

/-- The excerpt of a source that has been read. -/
def printSource (source : List UInt8) (errLine errCol : ℕ) :
    Except Fault (List (List UInt8)) := do
  let pos ← seekLine source errLine (source.length + 1) 1 0
  let line ← printLine source cmsSyntaxErrorMaxLineLength pos
  let carets ← drawCaret cmsSyntaxErrorMaxLineLength errCol
  return line ++ asciiBytes "\n" :: (carets ++ [asciiBytes "^\n\n"])

/-- The excerpt, if the location calls for one: the attempt, the message afterwards and what
is logged. -/
def printExcerpt (sources : Sources) (message : Message) (location : ErrorLocation) :
    Except Fault (Option Attempt × Message × List (List UInt8)) :=
  if 0 < location.errLine ∧ 0 < location.errCol ∧
      location.errCol < cmsSyntaxErrorMaxLineLength then
    match location.pathStart, location.pathEnd with
    | some pathStart, some pathEnd => do
        let modified ← message.write pathEnd 0
        let path ← modified.stringAt pathStart
        let reverted ← modified.write pathEnd 0x3A
        let attempt : Attempt := ⟨path, location.errLine, location.errCol⟩
        match sources path with
        | none => return (some attempt, reverted, [])
        | some source =>
            let logged ← printSource source location.errLine location.errCol
            return (some attempt, reverted, logged)
    | _, _ => .error .outOfBounds
  else
    return (none, message, [])

/-- The loop over the backtrace. -/
def logStack : ℕ → List EcmaValue → Except Fault (List (List UInt8))
  | _, [] => return []
  | index, item :: items =>
      match item with
      | .string _ => do
          let message ← Message.copy item
          let text ← message.stringAt 0
          let later ← logStack (index + 1) items
          return (asciiBytes " " ++ Decimal.decimal index ++ asciiBytes ": " ++ text ++
            asciiBytes "\n") :: later
      | _ => logStack (index + 1) items

/-- What the reporter learns about the exception: the string its value converts to, or
another exception, whether it is a syntax error, and the items of its backtrace. -/
structure ReportedException where
  string : EcmaValue
  syntaxError : Bool
  stack : Option (List EcmaValue)

/-- What the reporter does: the message after the excerpt, the attempted excerpt, and the
texts passed to `jerry_log`. -/
structure Report where
  message : Message
  attempt : Option Attempt
  logged : List (List UInt8)

/-- `cms_pp_unhandled_exception`. -/
def cmsPpUnhandledException (sources : Sources) (exception : ReportedException) :
    Except Fault Report := do
  let message ← Message.copy exception.string
  let (attempt, message, excerpt) ← (
    if exception.syntaxError then do
      let location ← locate message
      printExcerpt sources message location
    else
      return (none, message, []) : Except Fault _)
  let text ← message.stringAt 0
  let backtrace ← (
    match exception.stack with
    | some items => logStack 0 (items.take 32)
    | none => return [] : Except Fault _)
  return ⟨message, attempt, excerpt ++ Driver.unhandledException text :: backtrace⟩

section Loops

variable (source : List UInt8)

theorem sourceByte_of_lt {pos : ℕ} (inside : pos < source.length) :
    sourceByte source pos = .ok (source.get ⟨pos, inside⟩) := by
  rw [sourceByte, List.getElem?_eq_getElem inside]
  rfl

/-- The seek ends inside the source or at its end. -/
theorem seekLine_ok (errLine currLine : ℕ) {fuel pos : ℕ} (inside : pos ≤ source.length)
    (enough : source.length - pos < fuel) :
    ∃ stop, seekLine source errLine fuel currLine pos = .ok stop ∧ stop ≤ source.length := by
  induction fuel generalizing currLine pos with
  | zero => cases enough
  | succ fuel ih =>
      rw [seekLine]
      split_ifs with goesOn
      · rw [sourceByte_of_lt source goesOn.1]
        exact ih _ goesOn.1 (by omega)
      · exact ⟨pos, rfl, inside⟩

theorem printLine_ok (room pos : ℕ) : ∃ logged, printLine source room pos = .ok logged := by
  induction room generalizing pos with
  | zero => exact ⟨[], rfl⟩
  | succ room ih =>
      rw [printLine]
      split_ifs with inside
      · rw [sourceByte_of_lt source inside]
        rcases ih (pos + 1) with ⟨later, printed⟩
        simp only [bind, Except.bind, printed]
        split_ifs
        · exact ⟨_, rfl⟩
        · exact ⟨_, rfl⟩
      · exact ⟨[], rfl⟩

theorem decrement_succ (counter : ℕ) : decrement (counter + 1) = counter := rfl

/-- One tilde less than the column. -/
theorem drawCaret_eq {column fuel : ℕ} (enough : column < fuel) :
    drawCaret fuel (column + 1) = .ok (List.replicate column (asciiBytes "~")) := by
  induction column generalizing fuel with
  | zero =>
      cases fuel with
      | zero => cases enough
      | succ fuel =>
          rw [drawCaret, decrement_succ]
          simp [pure, Except.pure]
  | succ column ih =>
      cases fuel with
      | zero => cases enough
      | succ fuel =>
          have later := ih (Nat.lt_of_succ_lt_succ enough)
          rw [drawCaret, decrement_succ]
          simp [later, bind, Except.bind, pure, Except.pure, List.replicate_succ]

theorem printSource_ok (errLine : ℕ) {errCol : ℕ} (positive : 0 < errCol)
    (small : errCol < cmsSyntaxErrorMaxLineLength) :
    ∃ logged, printSource source errLine errCol = .ok logged := by
  rcases seekLine_ok source errLine 1 (Nat.zero_le _)
    (Nat.lt_succ_self (source.length - 0)) with ⟨pos, sought, _⟩
  rcases printLine_ok source cmsSyntaxErrorMaxLineLength pos with ⟨line, printed⟩
  obtain ⟨column, rfl⟩ : ∃ column, errCol = column + 1 := ⟨errCol - 1, by omega⟩
  have drawn := drawCaret_eq (Nat.lt_of_succ_lt small)
  rw [Nat.sub_zero] at sought
  refine ⟨line ++ asciiBytes "\n" ::
    (List.replicate column (asciiBytes "~") ++ [asciiBytes "^\n\n"]), ?_⟩
  rw [printSource, sought]
  simp only [bind, Except.bind, printed, drawn]
  rfl

end Loops

section Copying

/-- The text the buffer holds for the string conversion of the value. -/
def copiedText : EcmaValue → List UInt8
  | .string string => fitted (Native.cmsPrintBufferSize - 1) string.units
  | _ => []

theorem length_copiedText_le (value : EcmaValue) :
    (copiedText value).length ≤ Native.cmsPrintBufferSize - 1 := by
  cases value with
  | string string => exact length_fitted_le _ _
  | _ => exact Nat.zero_le _

/-- The message for a value. -/
def copiedMessage (value : EcmaValue) : Message :=
  ⟨copiedText value, Nat.lt_of_le_of_lt (length_copiedText_le value) (by decide)⟩

/-- The copy succeeds, and the terminator is stored inside the array. -/
theorem Message.copy_eq (value : EcmaValue) : Message.copy value = .ok (copiedMessage value) := by
  have copied : jerryStringToBuffer value (Native.cmsPrintBufferSize - 1) =
      .ok (copiedText value, (copiedText value).length) := by
    cases value with
    | string string => exact ecmaStringCopyToBuffer_eq string (by decide)
    | _ => rfl
  have fits : (copiedText value).length < Native.cmsPrintBufferSize := (copiedMessage value).fits
  have cut : (copiedText value).take (copiedText value).length = copiedText value :=
    List.take_length
  rw [Message.copy, copied]
  simp only [bind, Except.bind]
  rw [dif_pos fits]
  simp only [cut, pure, Except.pure]
  rfl

end Copying

section Excerpt

variable (sources : Sources)

/-- The condition under which an excerpt is attempted. -/
def ErrorLocation.Shown (location : ErrorLocation) : Prop :=
  0 < location.errLine ∧ 0 < location.errCol ∧ location.errCol < cmsSyntaxErrorMaxLineLength

instance (location : ErrorLocation) : Decidable location.Shown :=
  inferInstanceAs (Decidable (_ ∧ _ ∧ _))

/-- Where the scan ends early, no excerpt is attempted. -/
theorem Located.not_shown_unset : ¬ErrorLocation.unset.Shown := by
  decide

/-- The message is cut at the colon for the time the file is opened. -/
theorem printExcerpt_shown {before path numbers : List UInt8} {message : Message}
    (same : message.text = before ++ 0x5B :: (path ++ 0x3A :: numbers)) {line column : ℕ}
    (shown : 0 < line ∧ 0 < column ∧ column < cmsSyntaxErrorMaxLineLength) :
    ∃ logged, printExcerpt sources message
      ⟨line, column, some (before.length + 1), some (before.length + 1 + path.length)⟩ =
        .ok (some ⟨CString.upToNul path, line, column⟩, message, logged) ∧
      match sources (CString.upToNul path) with
      | none => logged = []
      | some source => printSource source line column = .ok logged := by
  have split : message.text = (before ++ 0x5B :: path) ++ 0x3A :: numbers := by
    rw [same, List.append_assoc, List.cons_append]
  have stop : (before ++ 0x5B :: path).length = before.length + 1 + path.length := by
    rw [List.length_append, List.length_cons]
    omega
  have inside : before.length + 1 + path.length < message.stringEnd := by
    rw [Message.stringEnd, split, List.length_append, stop]
    simp
  have replaced (byte other : UInt8) (rest : List UInt8) :
      ((before ++ 0x5B :: path) ++ byte :: rest).set (before.length + 1 + path.length) other =
        (before ++ 0x5B :: path) ++ other :: rest := by
    rw [← stop, List.set_append_right _ _ (le_refl _), Nat.sub_self]
    rfl
  have fits (byte : UInt8) : ((before ++ 0x5B :: path) ++ byte :: numbers).length <
      Native.cmsPrintBufferSize := by
    have bound := message.fits
    rw [split] at bound
    simpa using bound
  have cut : message.write (before.length + 1 + path.length) 0 =
      .ok ⟨(before ++ 0x5B :: path) ++ 0 :: numbers, fits 0⟩ := by
    rw [Message.write, if_pos inside]
    congr 1
    ext1
    simp only [split]
    exact replaced _ _ _
  have opened : Message.stringAt ⟨(before ++ 0x5B :: path) ++ 0 :: numbers, fits 0⟩
      (before.length + 1) = .ok (CString.upToNul path) := by
    have behind : ((before ++ 0x5B :: path) ++ 0 :: numbers).drop (before.length + 1) =
        path ++ 0 :: numbers := by
      rw [List.append_assoc, List.cons_append, ← List.drop_drop, List.drop_left' rfl]
      rfl
    rw [Message.stringAt_of_le (by rw [Message.stringEnd]; simp), behind,
      CString.upToNul_append_nul]
  have reverted : Message.write ⟨(before ++ 0x5B :: path) ++ 0 :: numbers, fits 0⟩
      (before.length + 1 + path.length) 0x3A = .ok message := by
    rw [Message.write, if_pos (by rw [Message.stringEnd, List.length_append, stop]; simp)]
    congr 1
    ext1
    simp only [split]
    exact replaced _ _ _
  rw [printExcerpt, if_pos shown]
  simp only [bind, Except.bind, cut, opened, reverted]
  cases sources (CString.upToNul path) with
  | none => exact ⟨[], rfl, rfl⟩
  | some source =>
      rcases printSource_ok source line shown.2.1 shown.2.2 with ⟨logged, printed⟩
      exact ⟨logged, by simp only [printed]; rfl, printed⟩

theorem printExcerpt_not_shown {message : Message} {location : ErrorLocation}
    (notShown : ¬location.Shown) :
    printExcerpt sources message location = .ok (none, message, []) := by
  unfold ErrorLocation.Shown at notShown
  rw [printExcerpt, if_neg notShown]
  rfl

/-- An attempt is made where the numbers call for it, and leaves the message intact. -/
theorem printExcerpt_ok (message : Message) {location : ErrorLocation}
    (located : Located message.text location) :
    ∃ attempt logged, printExcerpt sources message location = .ok (attempt, message, logged) ∧
      (attempt ≠ none → location.Shown) := by
  by_cases shown : location.Shown
  · generalize same : message.text = text at located
    cases located with
    | noBracket absent => exact absurd shown (by decide)
    | resourceName first => exact absurd shown (by decide)
    | noColon first isFile absent => exact absurd shown.1 (lt_irrefl 0)
    | numbers first isFile noColon =>
        rcases printExcerpt_shown sources same shown with ⟨logged, printed, _⟩
        exact ⟨_, logged, printed, fun _ => shown⟩
  · exact ⟨none, [], printExcerpt_not_shown sources shown, fun no => absurd rfl no⟩

/-- Both ends of the path are set where an excerpt is attempted, and the end is at a colon. -/
theorem Located.path_set {text : List UInt8} {location : ErrorLocation}
    (located : Located text location) (shown : location.Shown) :
    ∃ pathStart pathEnd, location.pathStart = some pathStart ∧
      location.pathEnd = some pathEnd ∧ pathStart ≤ pathEnd ∧ text[pathEnd]? = some 0x3A := by
  cases located with
  | noBracket absent => exact absurd shown (by decide)
  | resourceName first => exact absurd shown (by decide)
  | noColon first isFile absent => exact absurd shown.1 (lt_irrefl 0)
  | @numbers before path numbers first isFile noColon =>
      refine ⟨_, _, rfl, rfl, Nat.le_add_right _ _, ?_⟩
      have split : before ++ 0x5B :: (path ++ 0x3A :: numbers) =
          (before ++ 0x5B :: path) ++ 0x3A :: numbers := by
        rw [List.append_assoc, List.cons_append]
      have stop : (before ++ 0x5B :: path).length = before.length + 1 + path.length := by
        rw [List.length_append, List.length_cons]
        omega
      rw [split, ← stop, List.getElem?_append_right (le_refl _), Nat.sub_self]
      rfl

end Excerpt

section Report

variable (sources : Sources)

/-- The line of the backtrace for one item. -/
def backtraceLine (item : EcmaValue × ℕ) : List UInt8 :=
  asciiBytes " " ++ Decimal.decimal item.2 ++ asciiBytes ": " ++
    CString.upToNul (copiedText item.1) ++ asciiBytes "\n"

/-- An item of the backtrace that is reported. -/
def EcmaValue.isString : EcmaValue → Bool
  | .string _ => true
  | _ => false

/-- The strings among the first items of the backtrace, with their indices. -/
def reportedItems (stack : Option (List EcmaValue)) : List (EcmaValue × ℕ) :=
  ((stack.getD []).take 32).zipIdx.filter fun item => item.1.isString

theorem logStack_eq (index : ℕ) (items : List EcmaValue) :
    logStack index items =
      .ok (((items.zipIdx index).filter fun item => item.1.isString).map backtraceLine) := by
  induction items generalizing index with
  | nil => rfl
  | cons item items ih =>
      cases item with
      | string string =>
          rw [logStack, Message.copy_eq]
          simp only [bind, Except.bind, Message.stringAt_of_le (Nat.zero_le _), ih]
          rfl
      | _ => exact ih (index + 1)

/-- The report, from what the scan of the text and the excerpt come to. -/
theorem cmsPpUnhandledException_eq (exception : ReportedException) {location : ErrorLocation}
    {attempt : Option Attempt} {excerpt : List (List UInt8)}
    (located : Located (copiedText exception.string) location)
    (printed : printExcerpt sources (copiedMessage exception.string) location =
      .ok (attempt, copiedMessage exception.string, excerpt)) :
    cmsPpUnhandledException sources exception =
      .ok ⟨copiedMessage exception.string, if exception.syntaxError then attempt else none,
        (if exception.syntaxError then excerpt else []) ++ Driver.unhandledException
          (CString.upToNul (copiedText exception.string)) ::
            (reportedItems exception.stack).map backtraceLine⟩ := by
  have scanned : locate (copiedMessage exception.string) = .ok location :=
    locate_of_located located
  have text : (copiedMessage exception.string).stringAt 0 =
      .ok (CString.upToNul (copiedText exception.string)) :=
    Message.stringAt_of_le (Nat.zero_le _)
  have logged : (match exception.stack with
      | some items => logStack 0 (items.take 32)
      | none => return [] : Except Fault (List (List UInt8))) =
        .ok ((reportedItems exception.stack).map backtraceLine) := by
    cases exception.stack with
    | none => rfl
    | some items => exact logStack_eq 0 (items.take 32)
  rw [cmsPpUnhandledException, Message.copy_eq]
  cases exception.syntaxError with
  | true =>
      simp only [bind, Except.bind, if_true, scanned, printed, text, logged]
      rfl
  | false =>
      simp only [bind, Except.bind, Bool.false_eq_true, if_false, pure, Except.pure, text]
        at logged ⊢
      simp only [logged]

/-- The report is made for every exception without leaving the buffer or the source; the
message is the same afterwards, and it is logged up to its first NUL. -/
theorem cmsPpUnhandledException_safe (exception : ReportedException) :
    ∃ location report,
      Message.copy exception.string = .ok (copiedMessage exception.string) ∧
      (copiedText exception.string).length ≤ Native.cmsPrintBufferSize - 1 ∧
      (∀ string, exception.string = .string string →
        copiedText exception.string <+: utf8 string.units ∧
        ∃ count, copiedText exception.string =
          ((codePoints string.units).take count).flatMap encode) ∧
      locate (copiedMessage exception.string) = .ok location ∧
      (location.Shown → ∃ pathStart pathEnd, location.pathStart = some pathStart ∧
        location.pathEnd = some pathEnd ∧ pathStart ≤ pathEnd ∧
        (copiedText exception.string)[pathEnd]? = some 0x3A) ∧
      cmsPpUnhandledException sources exception = .ok report ∧
      report.message = copiedMessage exception.string ∧
      (report.attempt ≠ none → exception.syntaxError = true ∧ location.Shown) ∧
      ∃ excerpt backtrace, report.logged = excerpt ++ Driver.unhandledException
        (CString.upToNul (copiedText exception.string)) :: backtrace := by
  rcases exists_located (copiedText exception.string) with ⟨location, located⟩
  rcases printExcerpt_ok sources (copiedMessage exception.string) located
    with ⟨attempt, excerpt, printed, attempted⟩
  have reported := cmsPpUnhandledException_eq sources exception located printed
  refine ⟨location, _, Message.copy_eq _, length_copiedText_le _, ?_, locate_of_located located,
    located.path_set, reported, rfl, ?_, _, _, rfl⟩
  · intro string isString
    rw [isString]
    exact ⟨fitted_prefix_utf8 _ _, fitted_eq_take _ _⟩
  · intro attempts
    cases syntaxError : exception.syntaxError with
    | true =>
        simp only [syntaxError, if_true] at attempts
        exact ⟨rfl, attempted attempts⟩
    | false =>
        simp only [syntaxError] at attempts
        exact absurd rfl attempts

/-- The text is not logged byte for byte: an embedded NUL ends it. -/
theorem not_logged_byteForByte :
    ¬∀ (sources : Sources) (exception : ReportedException) (message : Message) (report : Report),
      Message.copy exception.string = .ok message →
      cmsPpUnhandledException sources exception = .ok report →
      Driver.unhandledException message.text ∈ report.logged := by
  intro byteForByte
  have logged := byteForByte (fun _ => none) ⟨.string (.heap 1 [0x61, 0, 0x62]), false, none⟩
    ⟨[0x61, 0, 0x62], by decide⟩
    ⟨⟨[0x61, 0, 0x62], by decide⟩, none, [Driver.unhandledException [0x61]]⟩ rfl rfl
  revert logged
  decide

end Report

end Cmsframe
