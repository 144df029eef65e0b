import Cmsframe.Report.Lines

/-!
# The texts of a report

What the reporter logs, from the source that is opened, the line that is sought, the column of
the caret and the strings it has copied.
-/

namespace Cmsframe

/-- What is printed of a line: its bytes up to the line feed, as far as there is room. -/
def printedBytes (source : List UInt8) (line : ℕ) : List UInt8 :=
  ((afterFeeds (line - 1) source).takeWhile fun byte => byte ≠ 0x0A).take
    cmsSyntaxErrorMaxLineLength

/-- The texts of an excerpt. In front of the caret stands a tilde for each column. -/
def excerptTexts (source : List UInt8) (line column : ℕ) : List (List UInt8) :=
  (printedBytes source line).map logChar ++ asciiBytes "\n" ::
    (List.replicate (column - 1) (asciiBytes "~") ++ [asciiBytes "^\n\n"])

/-- The texts of an attempt. There are none if the source cannot be opened. -/
def attemptTexts (sources : Sources) (attempt : Option Attempt) : List (List UInt8) :=
  match attempt with
  | none => []
  | some attempt =>
      match sources attempt.path with
      | none => []
      | some source => excerptTexts source attempt.line attempt.column

/-- All texts of a report. -/
def reportTexts (sources : Sources) (attempt : Option Attempt) (exception : ReportedException) :
    List (List UInt8) :=
  attemptTexts sources attempt ++
    Driver.unhandledException (CString.upToNul (copiedText exception.string)) ::
      (reportedItems exception.stack).map backtraceLine

/-- The attempt that is made where the scan of a text has come to a location. -/
def attemptAt (text : List UInt8) (location : ErrorLocation) : Option Attempt :=
  if location.Shown then
    match location.pathStart, location.pathEnd with
    | some pathStart, some pathEnd =>
        some ⟨CString.upToNul ((text.take pathEnd).drop pathStart), location.errLine,
          location.errCol⟩
    | _, _ => none
  else
    none

/-- The attempt that is made for an exception. -/
def attemptFor (exception : ReportedException) (location : ErrorLocation) : Option Attempt :=
  if exception.syntaxError then attemptAt (copiedText exception.string) location else none

section Texts

variable {sources : Sources} {source : List UInt8} {line column : ℕ}

theorem printSource_eq (positive : 0 < column) (small : column < cmsSyntaxErrorMaxLineLength) :
    printSource source line column = .ok (excerptTexts source line column) := by
  obtain ⟨caret, rfl⟩ : ∃ caret, column = caret + 1 := ⟨column - 1, by omega⟩
  exact printSource_start source small

theorem attemptAt_numbers {before path numbers : List UInt8}
    (shown : ErrorLocation.Shown ⟨(readNumbers numbers).1, (readNumbers numbers).2,
      some (before.length + 1), some (before.length + 1 + path.length)⟩) :
    attemptAt (before ++ 0x5B :: (path ++ 0x3A :: numbers))
        ⟨(readNumbers numbers).1, (readNumbers numbers).2, some (before.length + 1),
          some (before.length + 1 + path.length)⟩ =
      some ⟨CString.upToNul path, (readNumbers numbers).1, (readNumbers numbers).2⟩ := by
  have kept : ((before ++ 0x5B :: (path ++ 0x3A :: numbers)).take
      (before.length + 1 + path.length)).drop (before.length + 1) = path := by
    rw [List.drop_take, Nat.add_sub_cancel_left, ← List.drop_drop, List.drop_left' rfl,
      List.drop_succ_cons, List.drop_zero, List.take_left' rfl]
  rw [attemptAt, if_pos shown]
  simp only [kept]

/-- What the excerpt of a location logs. -/
theorem printExcerpt_texts {text : List UInt8} {location : ErrorLocation} {message : Message}
    (same : message.text = text) (located : Located text location) :
    printExcerpt sources message location =
      .ok (attemptAt text location, message, attemptTexts sources (attemptAt text location)) := by
  by_cases shown : location.Shown
  · cases located with
    | noBracket absent => exact absurd shown (by decide)
    | resourceName first => exact absurd shown (by decide)
    | noColon first isFile absent => exact absurd shown.1 (lt_irrefl 0)
    | @numbers before path numbers first isFile noColon =>
        rcases printExcerpt_shown sources same shown with ⟨logged, printed, texts⟩
        rw [printed, attemptAt_numbers shown, attemptTexts]
        cases isSource : sources (CString.upToNul path) with
        | none =>
            rw [isSource] at texts
            rw [texts]
        | some source =>
            rw [isSource] at texts
            obtain rfl := Except.ok.inj (texts.symm.trans (printSource_eq shown.2.1 shown.2.2))
            rfl
  · rw [printExcerpt_not_shown sources shown, attemptAt, if_neg shown]
    rfl

/-- The report of an exception, where the scan of its text has come to a location. -/
theorem cmsPpUnhandledException_texts {exception : ReportedException} {location : ErrorLocation}
    (located : Located (copiedText exception.string) location) :
    cmsPpUnhandledException sources exception =
      .ok ⟨copiedMessage exception.string, attemptFor exception location,
        reportTexts sources (attemptFor exception location) exception⟩ := by
  rw [cmsPpUnhandledException_eq sources exception located (printExcerpt_texts rfl located),
    reportTexts, attemptFor]
  cases exception.syntaxError with
  | true => rfl
  | false => rfl

end Texts

end Cmsframe
