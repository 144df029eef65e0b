import Cmsframe.Report.Texts

/-!
# The location of a syntax error

The parser writes the source name, the line and the column of a syntax error into the text of
the exception, and the reporter takes them out of the first bytes of that text. The two agree
unless the name holds a colon or the text is cut inside the column.
-/

namespace Cmsframe

open Unicode (CodeUnit asciiUnits utf8)
open Decimal (decimal)

/-- The text of `ecma_raise_standard_error_with_format`: each `%` is replaced by an argument. -/
def withFormat : List UInt8 → List (List CodeUnit) → List CodeUnit
  | [], _ => []
  | byte :: format, [] => UInt16.ofNat byte.toNat :: withFormat format []
  | byte :: format, argument :: arguments =>
      if byte = 0x25 then
        argument ++ withFormat format arguments
      else
        UInt16.ofNat byte.toNat :: withFormat format (argument :: arguments)

/-- A syntax error as the parser reports it. The messages are those of
`parser-error-messages.inc.h` and of the regular expression compiler, which have no opening
bracket; source names that begin with `<` are not names of files. -/
structure ParserError where
  message : List CodeUnit
  sourceName : List CodeUnit
  line : ℕ
  column : ℕ
  noBracket : 0x5B ∉ utf8 message
  isFile : (utf8 sourceName).head? ≠ some 0x3C
  noNul : 0 ∉ utf8 sourceName
  line_pos : 0 < line
  line_lt : line < 2 ^ 32
  column_pos : 0 < column
  column_lt : column < cmsSyntaxErrorMaxLineLength

/-- The text behind a path names a location for which an excerpt is attempted. -/
def NamesLocation (numbers : List UInt8) : Prop :=
  0 < (readNumbers numbers).1 ∧ 0 < (readNumbers numbers).2 ∧
    (readNumbers numbers).2 < cmsSyntaxErrorMaxLineLength

instance (numbers : List UInt8) : Decidable (NamesLocation numbers) :=
  inferInstanceAs (Decidable (_ ∧ _ ∧ _))

namespace ParserError

variable (error : ParserError)

/-- The string an uncaught syntax error converts to. -/
def text : List CodeUnit :=
  asciiUnits (asciiBytes "SyntaxError: ") ++ withFormat (asciiBytes "% [%:%:%]")
    [error.message, error.sourceName, asciiUnits (decimal error.line),
      asciiUnits (decimal error.column)]

/-- What the buffer of the reporter holds of the text. -/
def kept : List UInt8 := fitted (Native.cmsPrintBufferSize - 1) error.text

/-- Where the source name begins in the text. -/
def nameStart : ℕ := 15 + (utf8 error.message).length

/-- What the buffer holds of the text behind the opening bracket. -/
def keptRest : List UInt8 := error.kept.drop error.nameStart

/-- What the buffer holds of the source name. -/
def keptName : List UInt8 := error.keptRest.take (utf8 error.sourceName).length

/-- The buffer holds all digits of the column or none of them. -/
def ColumnUncut : Prop :=
  46 ≤ (utf8 error.message).length + (utf8 error.sourceName).length +
      (decimal error.line).length ∨
    (utf8 error.message).length + (utf8 error.sourceName).length + (decimal error.line).length +
      (decimal error.column).length ≤ 46

/-- The column is not cut, or, where the name holds a colon, what stands behind the colon does
not name a location. -/
def Legible : Prop :=
  if 0x3A ∈ error.keptName then
    ¬NamesLocation (error.keptRest.dropWhile fun byte => byte ≠ 0x3A).tail
  else
    error.ColumnUncut

/-- Whenever a source is opened for an excerpt, its path, the line and the column are those the
parser has reported, and what is logged begins with the excerpt of this source for this line and
column. -/
def ShownTruly : Prop :=
  ∀ (sources : Sources) (string : EcmaString) (stack : Option (List EcmaValue)) (report : Report)
    (attempt : Attempt) (source : List UInt8), string.units = error.text →
    cmsPpUnhandledException sources ⟨.string string, true, stack⟩ = .ok report →
    report.attempt = some attempt → sources attempt.path = some source →
    attempt = ⟨utf8 error.sourceName, error.line, error.column⟩ ∧
      excerptTexts source error.line error.column <+: report.logged

end ParserError

section Numbers

open CString Decimal

variable {digits rest : List UInt8}

/-- Digits and what stands behind them are read as the line, a character that is skipped, and
the column. -/
theorem readNumbers_append (notEmpty : digits ≠ []) (areDigits : ∀ byte ∈ digits, IsDigit byte)
    (ends : ∀ byte ∈ rest.head?, ¬IsDigit byte) (noNul : 0 ∉ digits ++ rest)
    (small : value digits < 2 ^ 32) :
    readNumbers (digits ++ rest) = (value digits,
      if rest = [] then 0 else toUnsignedInt (CString.strtol (upToNul rest.tail)).1) := by
  have read := strtol_digits notEmpty areDigits ends (lt_trans small (by norm_num))
  simp only [readNumbers, upToNul_eq_self noNul, read, toUnsignedInt_natCast small]
  cases rest with
  | nil => simp
  | cons byte rest =>
      have behind : (digits ++ byte :: rest).drop (digits.length + 1) = rest := by
        rw [← List.drop_drop, List.drop_left' rfl]
        rfl
      simp [behind]

/-- The line and the column as the parser writes them. -/
def locationBytes (line column : ℕ) : List UInt8 :=
  decimal line ++ 0x3A :: (decimal column ++ [0x5D])

theorem digit_ne {byte other : UInt8} (digit : IsDigit byte) (notDigit : ¬IsDigit other) :
    byte ≠ other := by
  rintro rfl
  exact notDigit digit

theorem nul_notMem_locationBytes (line column : ℕ) : 0 ∉ locationBytes line column := by
  have noNul (number : ℕ) : 0 ∉ decimal number := fun mem =>
    digit_ne (isDigit_of_mem_decimal mem) (by decide) rfl
  simp [locationBytes, noNul]

variable {line column : ℕ}

/-- Where the text is cut before the column, no column is read. -/
theorem readNumbers_take_line (line_lt : line < 2 ^ 32) {count : ℕ}
    (before : count ≤ (decimal line).length + 1) :
    (readNumbers ((locationBytes line column).take count)).2 = 0 := by
  have noNul := fun mem => nul_notMem_locationBytes line column
    (List.mem_of_mem_take (i := count) mem)
  cases count with
  | zero => rfl
  | succ count =>
      have notEmpty : (decimal line).take (count + 1) ≠ [] := by
        simpa using decimal_ne_nil line
      have small : value ((decimal line).take (count + 1)) < 2 ^ 32 :=
        lt_of_le_of_lt (value_take_decimal_le line _) line_lt
      have areDigits : ∀ byte ∈ (decimal line).take (count + 1), IsDigit byte :=
        fun byte mem => isDigit_of_mem_decimal (List.mem_of_mem_take mem)
      have room : count + 1 - (decimal line).length = 0 ∨
          count + 1 - (decimal line).length = 1 := by
        omega
      rw [locationBytes, List.take_append] at noNul ⊢
      rcases room with inside | behind
      · rw [inside, List.take_zero] at noNul ⊢
        rw [readNumbers_append notEmpty areDigits (by simp) noNul small, if_pos rfl]
      · rw [behind, List.take_succ_cons, List.take_zero] at noNul ⊢
        rw [readNumbers_append notEmpty areDigits (by rintro _ ⟨⟩; decide) noNul small]
        rfl

/-- Where the text is cut behind the beginning of the column, its first digits are read. -/
theorem readNumbers_take_column (line_lt : line < 2 ^ 32) (column_lt : column < 2 ^ 32)
    {count : ℕ} (some : 0 < count) :
    readNumbers ((locationBytes line column).take ((decimal line).length + 1 + count)) =
      (line, value ((decimal column).take count)) := by
  have noNul := fun mem => nul_notMem_locationBytes line column
    (List.mem_of_mem_take (i := (decimal line).length + 1 + count) mem)
  have cut : (locationBytes line column).take ((decimal line).length + 1 + count) =
      decimal line ++ 0x3A :: ((decimal column).take count ++
        [0x5D].take (count - (decimal column).length)) := by
    rw [locationBytes, List.take_append, List.take_of_length_le (by omega), Nat.add_assoc,
      Nat.add_sub_cancel_left, Nat.add_comm 1 count, List.take_succ_cons, List.take_append]
  rw [cut] at noNul ⊢
  have behind : 0 ∉ (decimal column).take count ++ [0x5D].take (count - (decimal column).length) :=
    fun mem => noNul (List.mem_append_right _ (List.mem_cons_of_mem _ mem))
  have notEmpty : (decimal column).take count ≠ [] := by
    have positive := List.length_pos_of_ne_nil (decimal_ne_nil column)
    intro isNil
    have length := congrArg List.length isNil
    rw [List.length_take, List.length_nil] at length
    omega
  have ends : ∀ byte ∈ ([0x5D].take (count - (decimal column).length) : List UInt8).head?,
      ¬IsDigit byte := by
    intro byte isHead
    have mem := List.mem_of_mem_take (List.mem_of_mem_head? isHead)
    rw [List.mem_singleton.mp mem]
    decide
  have small : value ((decimal column).take count) < 2 ^ 32 :=
    lt_of_le_of_lt (value_take_decimal_le column count) column_lt
  have read := strtol_digits notEmpty
    (fun byte mem => isDigit_of_mem_decimal (List.mem_of_mem_take mem)) ends
    (lt_trans small (by norm_num))
  rw [readNumbers_append (decimal_ne_nil line) (fun byte => isDigit_of_mem_decimal)
    (by rintro _ ⟨⟩; decide) noNul (by rwa [value_decimal]), value_decimal,
    if_neg (List.cons_ne_nil _ _), List.tail_cons, upToNul_eq_self behind, read,
    toUnsignedInt_natCast small]

end Numbers

section Attempts

variable {sources : Sources} {string : EcmaString} {stack : Option (List EcmaValue)}
  {report : Report}

theorem attempt_eq_none {location : ErrorLocation}
    (located : Located (copiedText (.string string)) location) (notShown : ¬location.Shown)
    (reported : cmsPpUnhandledException sources ⟨.string string, true, stack⟩ = .ok report) :
    report.attempt = none := by
  have same := @cmsPpUnhandledException_texts sources ⟨.string string, true, stack⟩ _ located
  cases reported.symm.trans same
  exact if_neg notShown

theorem attempt_eq_some {before path numbers : List UInt8}
    (same : copiedText (.string string) = before ++ 0x5B :: (path ++ 0x3A :: numbers))
    (first : 0x5B ∉ before) (isFile : (path ++ [0x3A]).head? ≠ some 0x3C) (noColon : 0x3A ∉ path)
    (named : NamesLocation numbers)
    (reported : cmsPpUnhandledException sources ⟨.string string, true, stack⟩ = .ok report) :
    report.attempt = some
      ⟨CString.upToNul path, (readNumbers numbers).1, (readNumbers numbers).2⟩ := by
  have located : Located (copiedText (.string string)) _ :=
    same ▸ Located.numbers first isFile noColon
  have isReport := @cmsPpUnhandledException_texts sources ⟨.string string, true, stack⟩ _ located
  cases reported.symm.trans isReport
  have attempted := @attemptAt_numbers before path numbers named
  rw [← same] at attempted
  exact attempted

/-- What an attempt logs stands at the beginning of the report. -/
theorem excerptTexts_isPrefix {exception : ReportedException} {attempt : Attempt}
    {source : List UInt8}
    (reported : cmsPpUnhandledException sources exception = .ok report)
    (attempted : report.attempt = some attempt) (isSource : sources attempt.path = some source) :
    excerptTexts source attempt.line attempt.column <+: report.logged := by
  rcases exists_located (copiedText exception.string) with ⟨location, located⟩
  cases reported.symm.trans (cmsPpUnhandledException_texts located)
  change attemptFor exception location = some attempt at attempted
  change _ <+: reportTexts sources (attemptFor exception location) exception
  rw [attempted, reportTexts, attemptTexts]
  simp only [isSource]
  exact List.prefix_append _ _

end Attempts

namespace ParserError

variable (error : ParserError)

/-- The bytes in front of the opening bracket. -/
def heading : List UInt8 := asciiBytes "SyntaxError: " ++ utf8 error.message ++ [0x20]

/-- The bytes of the text behind the opening bracket. -/
def rest : List UInt8 := utf8 error.sourceName ++ 0x3A :: locationBytes error.line error.column

theorem length_heading : error.heading.length + 1 = error.nameStart := by
  have prefixLength : (asciiBytes "SyntaxError: ").length = 13 := by decide
  simp only [heading, nameStart, List.length_append, prefixLength, List.length_singleton]
  omega

theorem bracket_notMem_heading : 0x5B ∉ error.heading := by
  have noBracket := error.noBracket
  simp only [heading, List.mem_append, not_or]
  exact ⟨⟨by decide, noBracket⟩, by decide⟩

theorem text_eq : error.text =
    (asciiUnits (asciiBytes "SyntaxError: ") ++ (error.message ++ (asciiUnits (asciiBytes " [") ++
      error.sourceName))) ++ asciiUnits (0x3A :: locationBytes error.line error.column) := by
  have format : asciiBytes "% [%:%:%]" =
      [0x25, 0x20, 0x5B, 0x25, 0x3A, 0x25, 0x3A, 0x25, 0x5D] := by decide
  have bracket : asciiBytes " [" = [0x20, 0x5B] := by decide
  simp [text, format, bracket, withFormat, locationBytes, asciiUnits]

theorem ascii_locationBytes (line column : ℕ) :
    ∀ byte ∈ 0x3A :: locationBytes line column, byte.toNat < 0x80 := by
  intro byte mem
  simp only [locationBytes, List.mem_cons, List.mem_append, List.not_mem_nil, or_false] at mem
  rcases mem with rfl | inLine | rfl | inColumn | rfl
  · decide
  · exact Decimal.ascii_decimal _ byte inLine
  · decide
  · exact Decimal.ascii_decimal _ byte inColumn
  · decide

/-- The buffer holds the beginning of the text, and is full where the text goes on. -/
theorem exists_kept : ∃ count, error.kept = (error.heading ++ 0x5B :: error.rest).take count ∧
    (count = 63 ∨ 63 < error.nameStart + (utf8 error.sourceName).length ∧
      count ≤ error.nameStart + (utf8 error.sourceName).length) := by
  have bytes : utf8 (asciiUnits (asciiBytes "SyntaxError: ") ++ (error.message ++
      (asciiUnits (asciiBytes " [") ++ error.sourceName))) =
      error.heading ++ 0x5B :: utf8 error.sourceName := by
    have bracket : asciiBytes " [" = [0x20, 0x5B] := by decide
    have behind : asciiUnits (asciiBytes " [") ++ error.sourceName =
        0x20 :: 0x5B :: error.sourceName := by
      rw [bracket]
      rfl
    have encoded : utf8 (asciiUnits (asciiBytes " [") ++ error.sourceName) =
        [0x20, 0x5B] ++ utf8 error.sourceName := by
      rw [Unicode.utf8_asciiUnits_append (Unicode.ascii_of_all (by decide)), bracket]
    rw [Unicode.utf8_asciiUnits_append (Unicode.ascii_of_all (by decide)), behind,
      Unicode.utf8_append_of_not_low _ (by decide), ← behind, encoded, heading]
    simp
  have length : (error.heading ++ 0x5B :: utf8 error.sourceName).length =
      error.nameStart + (utf8 error.sourceName).length := by
    rw [List.length_append, List.length_cons, ← length_heading]
    omega
  have split : error.heading ++ 0x5B :: error.rest =
      (error.heading ++ 0x5B :: utf8 error.sourceName) ++
        0x3A :: locationBytes error.line error.column := by
    simp [rest]
  rw [kept, text_eq, fitted_append_asciiUnits _ _ (ascii_locationBytes _ _), bytes, length, split]
  split_ifs with fits
  · have whole : (error.heading ++ 0x5B :: utf8 error.sourceName).take 63 =
        error.heading ++ 0x5B :: utf8 error.sourceName :=
      List.take_of_length_le (length.trans_le fits)
    refine ⟨63, ?_, .inl rfl⟩
    rw [List.take_append, length, whole]
    rfl
  · have isPrefix := fitted_prefix_utf8 (Native.cmsPrintBufferSize - 1)
      (asciiUnits (asciiBytes "SyntaxError: ") ++ (error.message ++
        (asciiUnits (asciiBytes " [") ++ error.sourceName)))
    rw [bytes] at isPrefix
    refine ⟨_, ?_, .inr ⟨not_le.mp fits, isPrefix.length_le.trans_eq length⟩⟩
    exact List.prefix_iff_eq_take.mp (isPrefix.trans (List.prefix_append _ _))

variable {error} {count : ℕ}

theorem keptRest_eq (kept : error.kept = (error.heading ++ 0x5B :: error.rest).take count) :
    error.keptRest = error.rest.take (count - error.nameStart) := by
  have behind : (error.heading ++ 0x5B :: error.rest).drop error.nameStart = error.rest := by
    rw [← length_heading, ← List.drop_drop, List.drop_left' rfl]
    rfl
  rw [keptRest, kept, List.drop_take, behind]

theorem keptName_eq (kept : error.kept = (error.heading ++ 0x5B :: error.rest).take count) :
    error.keptName = (utf8 error.sourceName).take (count - error.nameStart) := by
  rw [keptName, keptRest_eq kept, List.take_take, rest, Nat.min_comm, ← List.take_take,
    List.take_left' rfl]

/-- The bracket is kept with what stands behind it. -/
theorem kept_eq_bracket (kept : error.kept = (error.heading ++ 0x5B :: error.rest).take count)
    (behind : error.nameStart ≤ count) : error.kept = error.heading ++ 0x5B :: error.keptRest := by
  have long := length_heading error
  obtain ⟨room, rfl⟩ : ∃ room, count = error.heading.length + (room + 1) :=
    ⟨count - error.nameStart, by omega⟩
  rw [keptRest_eq kept, kept, List.take_append, List.take_of_length_le (by omega),
    Nat.add_sub_cancel_left, List.take_succ_cons]
  congr 3
  omega

theorem head_keptRest (kept : error.kept = (error.heading ++ 0x5B :: error.rest).take count) :
    error.keptRest.head? ≠ some 0x3C := by
  have isFile := error.isFile
  rw [keptRest_eq kept, rest]
  cases count - error.nameStart with
  | zero => exact nofun
  | succ room =>
      generalize utf8 error.sourceName = name at isFile
      cases name with
      | nil => simp
      | cons first name => exact isFile

theorem shownTruly_of_not_shown {location : ErrorLocation} (located : Located error.kept location)
    (notShown : ¬location.Shown) : error.ShownTruly := by
  intro sources string stack report attempt source same reported attempted _
  rw [kept, ← same] at located
  rw [attempt_eq_none located notShown reported] at attempted
  cases attempted

theorem shownTruly_iff {before path numbers : List UInt8}
    (kept : error.kept = before ++ 0x5B :: (path ++ 0x3A :: numbers)) (first : 0x5B ∉ before)
    (isFile : (path ++ [0x3A]).head? ≠ some 0x3C) (noColon : 0x3A ∉ path)
    (named : NamesLocation numbers) :
    error.ShownTruly ↔ CString.upToNul path = utf8 error.sourceName ∧
      readNumbers numbers = (error.line, error.column) := by
  have attempts (sources : Sources) (string : EcmaString) (stack : Option (List EcmaValue))
      (report : Report) (same : string.units = error.text)
      (reported : cmsPpUnhandledException sources ⟨.string string, true, stack⟩ = .ok report) :
      report.attempt = some
        ⟨CString.upToNul path, (readNumbers numbers).1, (readNumbers numbers).2⟩ := by
    rw [ParserError.kept, ← same] at kept
    exact attempt_eq_some kept first isFile noColon named reported
  constructor
  · intro truly
    rcases exists_located error.kept with ⟨location, located⟩
    have reported := @cmsPpUnhandledException_texts (fun _ => some [])
      ⟨.string (.heap 1 error.text), true, none⟩ _ located
    have same := (truly _ _ _ _ _ [] rfl reported (attempts _ _ _ _ rfl reported) rfl).1
    exact ⟨congrArg Attempt.path same,
      Prod.ext (congrArg Attempt.line same) (congrArg Attempt.column same)⟩
  · rintro ⟨samePath, sameNumbers⟩ sources string stack report attempt source same reported
      attempted isSource
    have isPrefix := excerptTexts_isPrefix reported attempted isSource
    rw [attempts sources string stack report same reported, samePath, sameNumbers] at attempted
    cases attempted
    exact ⟨rfl, isPrefix⟩

/-- A colon in the name is taken for its end, and what stands behind it for the location. -/
theorem shownTruly_iff_of_colon
    (kept : error.kept = (error.heading ++ 0x5B :: error.rest).take count)
    (colon : 0x3A ∈ error.keptName) :
    error.ShownTruly ↔
      ¬NamesLocation (error.keptRest.dropWhile fun byte => byte ≠ 0x3A).tail := by
  have behind : error.nameStart ≤ count := by
    by_contra before
    rw [keptName_eq kept, Nat.sub_eq_zero_of_le (not_le.mp before).le, List.take_zero] at colon
    cases colon
  have bracket := kept_eq_bracket kept behind
  have isFile := head_keptRest kept
  rcases List.eq_append_cons_of_mem (List.mem_of_mem_take colon) with
    ⟨path, numbers, split, noColon⟩
  rw [keptName, split] at colon
  rw [split] at bracket isFile ⊢
  have isFile' : (path ++ [0x3A]).head? ≠ some 0x3C := by
    cases path with
    | nil => exact isFile
    | cons first path => exact isFile
  have shorter : path.length < (utf8 error.sourceName).length := by
    by_contra longer
    rw [List.take_append_of_le_length (not_lt.mp longer)] at colon
    exact noColon (List.mem_of_mem_take colon)
  have tail : ((path ++ 0x3A :: numbers).dropWhile fun byte => byte ≠ 0x3A).tail = numbers := by
    rw [List.dropWhile_append_of_pos]
    · rfl
    · intro byte mem
      simpa using fun isColon : byte = 0x3A => noColon (isColon ▸ mem)
  rw [tail]
  by_cases named : NamesLocation numbers
  · rw [shownTruly_iff bracket error.bracket_notMem_heading isFile' noColon named]
    refine iff_of_false ?_ (not_not_intro named)
    rintro ⟨samePath, _⟩
    have bound := CString.length_upToNul_le path
    rw [samePath] at bound
    omega
  · have located := @Located.numbers _ _ numbers error.bracket_notMem_heading isFile' noColon
    rw [← bracket] at located
    exact iff_of_true (shownTruly_of_not_shown located named) named

/-- Where the text is cut in front of the location, no excerpt is attempted. -/
theorem shownTruly_of_short
    (kept : error.kept = (error.heading ++ 0x5B :: error.rest).take count)
    (noColon : 0x3A ∉ error.keptName)
    (short : count ≤ error.nameStart + (utf8 error.sourceName).length) : error.ShownTruly := by
  by_cases behind : error.nameStart ≤ count
  · have rest : error.keptRest = error.keptName := by
      rw [keptRest_eq kept, keptName_eq kept, ParserError.rest,
        List.take_append_of_le_length (by omega)]
    have isFile := head_keptRest kept
    have bracket := kept_eq_bracket kept behind
    rw [rest] at isFile bracket
    have located := Located.noColon error.bracket_notMem_heading isFile noColon
    rw [← bracket] at located
    apply shownTruly_of_not_shown located
    intro shown
    exact absurd shown.1 (lt_irrefl 0)
  · have length := length_heading error
    rw [List.take_append_of_le_length (by omega)] at kept
    have noBracket : 0x5B ∉ error.kept := by
      intro mem
      rw [kept] at mem
      exact error.bracket_notMem_heading (List.mem_of_mem_take mem)
    exact shownTruly_of_not_shown (.noBracket noBracket) Located.not_shown_unset

/-- The name is kept as a whole: the line and what is kept of the column are read. -/
theorem shownTruly_iff_of_long
    (kept : error.kept = (error.heading ++ 0x5B :: error.rest).take count)
    (noColon : 0x3A ∉ error.keptName)
    (long : error.nameStart + (utf8 error.sourceName).length < count) :
    error.ShownTruly ↔
      let room := count - (error.nameStart + (utf8 error.sourceName).length + 1)
      room ≤ (decimal error.line).length + 1 ∨
        (decimal error.line).length + 1 + (decimal error.column).length ≤ room := by
  have behind : error.nameStart ≤ count := by omega
  have bracket := kept_eq_bracket kept behind
  have name : error.keptName = utf8 error.sourceName := by
    rw [keptName_eq kept, List.take_of_length_le (by omega)]
  obtain ⟨room, rfl⟩ : ∃ room, count =
      error.nameStart + ((utf8 error.sourceName).length + (room + 1)) :=
    ⟨count - (error.nameStart + (utf8 error.sourceName).length + 1), by omega⟩
  have rest : error.keptRest =
      utf8 error.sourceName ++ 0x3A :: (locationBytes error.line error.column).take room := by
    rw [keptRest_eq kept, ParserError.rest, Nat.add_sub_cancel_left, List.take_append,
      List.take_of_length_le (by omega), Nat.add_sub_cancel_left, List.take_succ_cons]
  have isFile : (utf8 error.sourceName ++ [0x3A]).head? ≠ some 0x3C := by
    have isFile := error.isFile
    generalize utf8 error.sourceName = path at isFile
    cases path with
    | nil => decide
    | cons first path => exact isFile
  rw [name] at noColon
  rw [rest] at bracket
  have located := @Located.numbers _ _ ((locationBytes error.line error.column).take room)
    error.bracket_notMem_heading isFile noColon
  rw [← bracket] at located
  have same : error.nameStart + ((utf8 error.sourceName).length + (room + 1)) -
      (error.nameStart + (utf8 error.sourceName).length + 1) = room := by
    omega
  simp only [same]
  by_cases before : room ≤ (decimal error.line).length + 1
  · refine iff_of_true ?_ (.inl before)
    apply shownTruly_of_not_shown located
    intro shown
    exact absurd (readNumbers_take_line error.line_lt before) shown.2.1.ne'
  · obtain ⟨digits, rfl⟩ : ∃ digits, room = (decimal error.line).length + 1 + (digits + 1) :=
      ⟨room - ((decimal error.line).length + 2), by omega⟩
    have column_lt : error.column < 2 ^ 32 := lt_trans error.column_lt (by decide)
    have read := readNumbers_take_column error.line_lt column_lt (Nat.succ_pos digits)
    have path : CString.upToNul (utf8 error.sourceName) = utf8 error.sourceName :=
      CString.upToNul_eq_self error.noNul
    by_cases cut : digits + 1 < (decimal error.column).length
    · have smaller := Decimal.value_take_decimal error.column_pos.ne' (Nat.succ_pos digits) cut
      have named : NamesLocation ((locationBytes error.line error.column).take
          ((decimal error.line).length + 1 + (digits + 1))) := by
        rw [NamesLocation, read]
        exact ⟨error.line_pos, smaller.1, lt_trans smaller.2 error.column_lt⟩
      rw [shownTruly_iff bracket error.bracket_notMem_heading isFile noColon named, read]
      refine iff_of_false ?_ (by omega)
      rintro ⟨_, same⟩
      exact absurd (congrArg Prod.snd same) smaller.2.ne
    · rw [List.take_of_length_le (not_lt.mp cut), Decimal.value_decimal] at read
      have named : NamesLocation ((locationBytes error.line error.column).take
          ((decimal error.line).length + 1 + (digits + 1))) := by
        rw [NamesLocation, read]
        exact ⟨error.line_pos, error.column_pos, error.column_lt⟩
      rw [shownTruly_iff bracket error.bracket_notMem_heading isFile noColon named, read]
      exact iff_of_true ⟨path, rfl⟩ (.inr (by omega))

/-- Without a colon in the name, the column decides. -/
theorem shownTruly_iff_of_noColon
    (kept : error.kept = (error.heading ++ 0x5B :: error.rest).take count)
    (full : count = 63 ∨ 63 < error.nameStart + (utf8 error.sourceName).length ∧
      count ≤ error.nameStart + (utf8 error.sourceName).length)
    (noColon : 0x3A ∉ error.keptName) : error.ShownTruly ↔ error.ColumnUncut := by
  unfold ColumnUncut
  by_cases short : count ≤ error.nameStart + (utf8 error.sourceName).length
  · refine iff_of_true (shownTruly_of_short kept noColon short) ?_
    left
    unfold nameStart at full short
    omega
  · have isFull : count = 63 := by omega
    rw [shownTruly_iff_of_long kept noColon (not_le.mp short), isFull]
    unfold nameStart at short ⊢
    simp only
    omega

/-- The location shown for a syntax error is the one the parser has reported exactly if it is
legible in the beginning of the text. -/
theorem shownTruly_iff_legible (error : ParserError) : error.ShownTruly ↔ error.Legible := by
  rcases error.exists_kept with ⟨count, kept, full⟩
  unfold Legible
  split_ifs with colon
  · exact shownTruly_iff_of_colon kept colon
  · exact shownTruly_iff_of_noColon kept full colon

/-- A syntax error in line 7 and column 12 of a script in a subdirectory. -/
def cutColumn : ParserError where
  message := asciiUnits (asciiBytes "Expected ')' token")
  sourceName := asciiUnits (asciiBytes "scripts/components/main.js")
  line := 7
  column := 12
  noBracket := by decide +kernel
  isFile := by decide +kernel
  noNul := by decide +kernel
  line_pos := by decide
  line_lt := by decide
  column_pos := by decide
  column_lt := by decide

/-- The second digit of the column does not fit into the buffer, and column 1 is shown. -/
theorem not_shownTruly_cutColumn : ¬cutColumn.ShownTruly := by
  have kept : cutColumn.kept = asciiBytes "SyntaxError: Expected ')' token " ++ 0x5B ::
      (asciiBytes "scripts/components/main.js" ++ 0x3A :: asciiBytes "7:1") := by
    decide +kernel
  have first : 0x5B ∉ asciiBytes "SyntaxError: Expected ')' token " := by decide +kernel
  have noColon : 0x3A ∉ asciiBytes "scripts/components/main.js" := by decide +kernel
  have isFile : (asciiBytes "scripts/components/main.js" ++ [0x3A]).head? ≠ some 0x3C := by
    decide +kernel
  have named : NamesLocation (asciiBytes "7:1") := by decide +kernel
  rw [shownTruly_iff kept first isFile noColon named]
  rintro ⟨_, sameNumbers⟩
  have column : (readNumbers (asciiBytes "7:1")).2 = 12 := congrArg Prod.snd sameNumbers
  revert column
  decide +kernel

end ParserError

end Cmsframe
