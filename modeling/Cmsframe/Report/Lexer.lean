import Cmsframe.Engine.Context
import Cmsframe.Library.Lines

/-!
# The line counter of the lexer

`lexer_skip_spaces` counts the lines of a source while it skips white space and comments.
Tokens are read without looking at them, since no line ends inside a token here.
-/

namespace Cmsframe

open Lines (LineEnds Passes)

/-- The counters of the lexer: `parser_line_counter_t` has 32 bits. -/
structure LexerContext where
  position : ℕ
  line : ℕ
  column : ℕ
  tokenLine : ℕ
  tokenColumn : ℕ
  wasNewline : Bool
  noSkipSpaces : Bool

/-- `skip_mode_t`. -/
inductive SkipMode where
  | spaces
  | singleLineComment
  | multiLineComment
  deriving DecidableEq

/-- One turn of the loop of `lexer_skip_spaces`: it goes on, returns, or raises
`PARSER_ERR_UNTERMINATED_MULTILINE_COMMENT`. -/
inductive SkipTurn where
  | next (mode : SkipMode) (context : LexerContext)
  | done (context : LexerContext)
  | unterminated (context : LexerContext)

namespace LexerContext

/-- `lexer_init_line_info` without a start line. -/
def start : LexerContext := ⟨0, 1, 1, 0, 0, false, false⟩

/-- Some bytes of the current line are skipped. -/
def advance (context : LexerContext) (count columns : ℕ) : LexerContext :=
  { context with
    position := context.position + count
    column := (context.column + columns) % 0x100000000 }

/-- A line end is skipped. -/
def newline (context : LexerContext) (count : ℕ) : LexerContext :=
  { context with
    position := context.position + count
    line := (context.line + 1) % 0x100000000
    column := 1
    wasNewline := true
    noSkipSpaces := false }

/-- A tab is skipped; `align_column_to_tab`. -/
def alignToTab (context : LexerContext) : LexerContext :=
  { context with
    position := context.position + 1
    column := ((context.column + 7) % 0x100000000 / 8 * 8 + 1) % 0x100000000 }

/-- The beginning of a comment is remembered as the position of the token. -/
def markToken (context : LexerContext) : LexerContext :=
  { context with tokenLine := context.line, tokenColumn := context.column }

end LexerContext

/-- A line end also ends a comment to the end of the line. -/
def SkipMode.afterNewline : SkipMode → SkipMode
  | .singleLineComment => .spaces
  | mode => mode

/-- `IS_UTF8_INTERMEDIATE_OCTET`. -/
def isUtf8IntermediateOctet (byte : UInt8) : Bool := byte &&& 0xC0 = 0x80

/-- Other bytes end the white space, and are skipped in a comment. -/
def skipOther (mode : SkipMode) (context : LexerContext) (rest : List UInt8) : SkipTurn :=
  if mode = .spaces then
    .done context
  else
    .next mode (context.advance 1 (if rest.head?.any (!isUtf8IntermediateOctet ·) then 1 else 0))

/-- The `switch` of `lexer_skip_spaces` on the byte at the position. -/
def skipByte (mode : SkipMode) (context : LexerContext) (byte : UInt8) (rest : List UInt8) :
    Except Fault SkipTurn :=
  if byte = 0x0D then
    .ok (.next mode.afterNewline (context.newline (if rest.head? = some 0x0A then 2 else 1)))
  else if byte = 0x0A then
    .ok (.next mode.afterNewline (context.newline 1))
  else if byte = 0x0B ∨ byte = 0x0C ∨ byte = 0x20 then
    .ok (.next mode (context.advance 1 1))
  else if byte = 0x09 then
    .ok (.next mode context.alignToTab)
  else if byte = 0x2F ∧ mode = .spaces ∧ rest.head? = some 0x2F then
    .ok (.next .singleLineComment (context.advance 2 2))
  else if byte = 0x2F ∧ mode = .spaces ∧ rest.head? = some 0x2A then
    .ok (.next .multiLineComment (context.markToken.advance 2 2))
  else if byte = 0x2A ∧ mode = .multiLineComment ∧ rest.head? = some 0x2F then
    .ok (.next .spaces (context.advance 2 2))
  else if byte = 0xC2 ∧ rest.head? = some 0xA0 then
    .ok (.next mode (context.advance 2 1))
  else if byte = 0xE2 then
    match rest with
    | second :: third :: _ =>
        if second = 0x80 ∧ third ||| 0x01 = 0xA9 then
          .ok (.next mode.afterNewline (context.newline 3))
        else
          .ok (skipOther mode context rest)
    | _ => .error .assertion
  else if byte = 0xEF ∧ rest.take 2 = [0xBB, 0xBF] then
    .ok (.next mode (context.advance 3 1))
  else
    .ok (skipOther mode context rest)

section Skipping

variable (source : List UInt8)

/-- The body of the loop of `lexer_skip_spaces`. -/
def skipTurn (mode : SkipMode) (context : LexerContext) : Except Fault SkipTurn :=
  match source.drop context.position with
  | [] => .ok (if mode = .multiLineComment then .unterminated context else .done context)
  | byte :: rest => skipByte mode context byte rest

/-- The loop of `lexer_skip_spaces`; an error carries the position it is raised at. -/
def skipLoop : ℕ → SkipMode → LexerContext → Except Fault (Except LexerContext LexerContext)
  | 0, _, _ => .error .outOfFuel
  | fuel + 1, mode, context => do
      match ← skipTurn source mode context with
      | .next mode context => skipLoop fuel mode context
      | .done context => return .ok context
      | .unterminated context => return .error context

/-- `lexer_skip_spaces`. -/
def lexerSkipSpaces (context : LexerContext) : Except Fault (Except LexerContext LexerContext) :=
  if context.noSkipSpaces then
    return .ok { context with noSkipSpaces := false }
  else
    skipLoop source (source.length + 1) .spaces
      { context with wasNewline := false, noSkipSpaces := false }

end Skipping

/-- The length of the line end that a text begins with, as the lexer counts them: LF, CR LF,
CR, U+2028 or U+2029. -/
def lineEndLength : List UInt8 → ℕ
  | [] => 0
  | first :: text =>
      if first = 0x0D then
        if text.head? = some 0x0A then 2 else 1
      else if first = 0x0A then
        1
      else if first = 0xE2 ∧ (text.take 2 = [0x80, 0xA8] ∨ text.take 2 = [0x80, 0xA9]) then
        3
      else
        0

theorem lineEndLength_le (text : List UInt8) : lineEndLength text ≤ text.length := by
  rcases text with _ | ⟨first, _ | ⟨second, _ | ⟨third, text⟩⟩⟩
  · exact le_refl 0
  · simp only [lineEndLength]
    split_ifs <;> simp_all
  · simp only [lineEndLength]
    split_ifs <;> simp_all
  · simp only [lineEndLength]
    split_ifs <;> simp

/-- The line ends of the lexer. -/
def lexerLineEnds : LineEnds UInt8 := ⟨lineEndLength, lineEndLength_le⟩

/-- The states of a lexer that skips spaces and reads tokens without line ends in turn: between
two of them there is no mode, inside `lexer_skip_spaces` there is one. -/
inductive LexerReaches (source : List UInt8) : Option SkipMode → LexerContext → Prop where
  | start : LexerReaches source none .start
  | token {context next : LexerContext} (before : LexerReaches source none context)
      (noLineEnd : Passes lexerLineEnds (source.drop context.position) 0
        (source.drop next.position))
      (sameLine : next.line = context.line) : LexerReaches source none next
  | noSkip {context : LexerContext} (before : LexerReaches source none context)
      (noSkipSpaces : context.noSkipSpaces = true) :
      LexerReaches source none { context with noSkipSpaces := false }
  | skip {context : LexerContext} (before : LexerReaches source none context)
      (skipSpaces : context.noSkipSpaces = false) :
      LexerReaches source (some .spaces)
        { context with wasNewline := false, noSkipSpaces := false }
  | turn {mode nextMode : SkipMode} {context next : LexerContext}
      (before : LexerReaches source (some mode) context)
      (step : skipTurn source mode context = .ok (.next nextMode next)) :
      LexerReaches source (some nextMode) next
  | done {mode : SkipMode} {context next : LexerContext}
      (before : LexerReaches source (some mode) context)
      (step : skipTurn source mode context = .ok (.done next)) : LexerReaches source none next

section Reaching

variable {source : List UInt8} {context next : LexerContext} {mode nextMode : SkipMode}

theorem LexerReaches.skipLoop {fuel : ℕ} (before : LexerReaches source (some mode) context)
    (skipped : Cmsframe.skipLoop source fuel mode context = .ok (.ok next)) :
    LexerReaches source none next := by
  induction fuel generalizing mode context with
  | zero => cases skipped
  | succ fuel ih =>
      rw [Cmsframe.skipLoop] at skipped
      cases turn : skipTurn source mode context with
      | error fault =>
          rw [turn] at skipped
          cases skipped
      | ok result =>
          rw [turn] at skipped
          cases result with
          | next nextMode following => exact ih (before.turn turn) skipped
          | done last =>
              cases skipped
              exact before.done turn
          | unterminated last => cases skipped

/-- A call of `lexer_skip_spaces` leads from one reached state to another. -/
theorem LexerReaches.lexerSkipSpaces (before : LexerReaches source none context)
    (skipped : Cmsframe.lexerSkipSpaces source context = .ok (.ok next)) :
    LexerReaches source none next := by
  rw [Cmsframe.lexerSkipSpaces] at skipped
  split_ifs at skipped with noSkipSpaces
  · cases skipped
    exact before.noSkip noSkipSpaces
  · exact (before.skip (by simpa using noSkipSpaces)).skipLoop skipped

theorem lineEndLength_of_plain {first : UInt8} (text : List UInt8) (notCr : first ≠ 0x0D)
    (notLf : first ≠ 0x0A) (notMark : first ≠ 0xE2) : lineEndLength (first :: text) = 0 := by
  simp [lineEndLength, notCr, notLf, notMark]

/-- What one turn does from the text at the position on: some bytes without a line end are
skipped, or a line end, which is counted. -/
def Skips (text : List UInt8) (context next : LexerContext) : Prop :=
  ∃ count, 0 < count ∧ next.position = context.position + count ∧
    ((Passes lexerLineEnds text 0 (text.drop count) ∧ next.line = context.line) ∨
      (Passes lexerLineEnds text 1 (text.drop count) ∧
        next.line = (context.line + 1) % 0x100000000))

theorem skips_newline {text : List UInt8} {count : ℕ} (isEnd : lineEndLength text = count)
    (positive : 0 < count) : Skips text context (context.newline count) := by
  subst isEnd
  exact ⟨lineEndLength text, positive, rfl, .inr ⟨.lineEnd positive (.refl _), rfl⟩⟩

theorem skips_one {first : UInt8} {text : List UInt8} (plain : lineEndLength (first :: text) = 0)
    (position : next.position = context.position + 1) (line : next.line = context.line) :
    Skips (first :: text) context next :=
  ⟨1, Nat.one_pos, position, .inl ⟨.symbol plain (.refl text), line⟩⟩

theorem skips_two {first second : UInt8} {text : List UInt8}
    (plain : lineEndLength (first :: second :: text) = 0)
    (plain' : lineEndLength (second :: text) = 0)
    (position : next.position = context.position + 2) (line : next.line = context.line) :
    Skips (first :: second :: text) context next :=
  ⟨2, Nat.two_pos, position, .inl ⟨.symbol plain (.symbol plain' (.refl text)), line⟩⟩

/-- Everything a turn of the loop can come to. -/
inductive TurnsInto (text : List UInt8) (context : LexerContext) : SkipTurn → Prop where
  | next {mode : SkipMode} {next : LexerContext} (skips : Skips text context next) :
      TurnsInto text context (.next mode next)
  | done : TurnsInto text context (.done context)
  | unterminated : TurnsInto text context (.unterminated context)

theorem turnsInto_skipOther (mode : SkipMode) (context : LexerContext) {first : UInt8}
    {text : List UInt8} (plain : lineEndLength (first :: text) = 0) :
    TurnsInto (first :: text) context (skipOther mode context text) := by
  unfold skipOther
  split_ifs
  · exact .done
  · exact .next (skips_one plain rfl rfl)
  · exact .next (skips_one plain rfl rfl)

theorem eq_cons_of_head? {text : List UInt8} {first : UInt8} (isHead : text.head? = some first) :
    ∃ rest, text = first :: rest := by
  cases text with
  | nil => cases isHead
  | cons head rest =>
      cases isHead
      exact ⟨rest, rfl⟩

/-- The comparison of `LEXER_NEWLINE_LS_PS_BYTE_23` with the last byte. -/
theorem or_one_eq (third : UInt8) : third ||| 0x01 = 0xA9 ↔ third = 0xA8 ∨ third = 0xA9 := by
  rcases third with ⟨bits⟩
  revert bits
  decide

theorem lineEndLength_of_not_mark {second third : UInt8} (rest : List UInt8)
    (notEnd : ¬(second = 0x80 ∧ third ||| 0x01 = 0xA9)) :
    lineEndLength (0xE2 :: second :: third :: rest) = 0 := by
  rw [or_one_eq] at notEnd
  simp only [lineEndLength, List.take_succ_cons, List.take_zero, List.cons.injEq, and_true]
  rw [if_neg (by decide), if_neg (by decide), if_neg]
  rintro ⟨_, ⟨isSecond, isThird⟩ | ⟨isSecond, isThird⟩⟩
  · exact notEnd ⟨isSecond, .inl isThird⟩
  · exact notEnd ⟨isSecond, .inr isThird⟩

/-- A turn ends at the assertion in front of a truncated character, or comes to something. -/
inductive StepsTo (text : List UInt8) (context : LexerContext) : Except Fault SkipTurn → Prop where
  | assertion : StepsTo text context (.error .assertion)
  | turn {turn : SkipTurn} (into : TurnsInto text context turn) : StepsTo text context (.ok turn)

theorem StepsTo.skips {text : List UInt8} (skips : Skips text context next) :
    StepsTo text context (.ok (.next mode next)) :=
  .turn (.next skips)

theorem stepsTo_skipByte (mode : SkipMode) (context : LexerContext) (byte : UInt8)
    (rest : List UInt8) :
    StepsTo (byte :: rest) context (skipByte mode context byte rest) := by
  unfold skipByte
  by_cases isCr : byte = 0x0D
  · rw [if_pos isCr]
    apply StepsTo.skips
    apply skips_newline
    · simp [lineEndLength, isCr]
    · split_ifs
      · exact Nat.two_pos
      · exact Nat.one_pos
  rw [if_neg isCr]
  by_cases isLf : byte = 0x0A
  · rw [if_pos isLf]
    subst isLf
    exact .skips (skips_newline rfl Nat.one_pos)
  rw [if_neg isLf]
  by_cases isBlank : byte = 0x0B ∨ byte = 0x0C ∨ byte = 0x20
  · rw [if_pos isBlank]
    refine .skips (skips_one (lineEndLength_of_plain _ isCr isLf ?_) rfl rfl)
    rintro rfl
    revert isBlank
    decide
  rw [if_neg isBlank]
  by_cases isTab : byte = 0x09
  · rw [if_pos isTab]
    subst isTab
    exact .skips (skips_one rfl rfl rfl)
  rw [if_neg isTab]
  by_cases lineComment : byte = 0x2F ∧ mode = .spaces ∧ rest.head? = some 0x2F
  · rw [if_pos lineComment]
    rcases lineComment with ⟨rfl, _, isHead⟩
    rcases eq_cons_of_head? isHead with ⟨rest, rfl⟩
    exact .skips (skips_two rfl rfl rfl rfl)
  rw [if_neg lineComment]
  by_cases comment : byte = 0x2F ∧ mode = .spaces ∧ rest.head? = some 0x2A
  · rw [if_pos comment]
    rcases comment with ⟨rfl, _, isHead⟩
    rcases eq_cons_of_head? isHead with ⟨rest, rfl⟩
    exact .skips (skips_two rfl rfl rfl rfl)
  rw [if_neg comment]
  by_cases commentEnd : byte = 0x2A ∧ mode = .multiLineComment ∧ rest.head? = some 0x2F
  · rw [if_pos commentEnd]
    rcases commentEnd with ⟨rfl, _, isHead⟩
    rcases eq_cons_of_head? isHead with ⟨rest, rfl⟩
    exact .skips (skips_two rfl rfl rfl rfl)
  rw [if_neg commentEnd]
  by_cases noBreakSpace : byte = 0xC2 ∧ rest.head? = some 0xA0
  · rw [if_pos noBreakSpace]
    rcases noBreakSpace with ⟨rfl, isHead⟩
    rcases eq_cons_of_head? isHead with ⟨rest, rfl⟩
    exact .skips (skips_two rfl rfl rfl rfl)
  rw [if_neg noBreakSpace]
  by_cases isMark : byte = 0xE2
  · rw [if_pos isMark]
    subst isMark
    rcases rest with _ | ⟨second, _ | ⟨third, rest⟩⟩
    · exact .assertion
    · exact .assertion
    · change StepsTo _ context (if second = 0x80 ∧ third ||| 0x01 = 0xA9 then
        .ok (.next mode.afterNewline (context.newline 3))
      else
        .ok (skipOther mode context (second :: third :: rest)))
      split_ifs with isEnd
      · rcases isEnd with ⟨rfl, isLast⟩
        apply StepsTo.skips
        rcases (or_one_eq third).mp isLast with rfl | rfl
        · exact skips_newline rfl (Nat.succ_pos 2)
        · exact skips_newline rfl (Nat.succ_pos 2)
      · exact .turn (turnsInto_skipOther mode context (lineEndLength_of_not_mark rest isEnd))
  rw [if_neg isMark]
  by_cases byteOrderMark : byte = 0xEF ∧ rest.take 2 = [0xBB, 0xBF]
  · rw [if_pos byteOrderMark]
    rcases byteOrderMark with ⟨rfl, isBom⟩
    rcases rest with _ | ⟨second, _ | ⟨third, rest⟩⟩
    · cases isBom
    · cases isBom
    · cases isBom
      exact .skips ⟨3, Nat.succ_pos 2, rfl,
        .inl ⟨.symbol rfl (.symbol rfl (.symbol rfl (.refl rest))), rfl⟩⟩
  rw [if_neg byteOrderMark]
  exact .turn (turnsInto_skipOther mode context (lineEndLength_of_plain rest isCr isLf isMark))

/-- One turn of the loop. -/
theorem stepsTo_skipTurn (source : List UInt8) (mode : SkipMode) (context : LexerContext) :
    StepsTo (source.drop context.position) context (skipTurn source mode context) := by
  rw [skipTurn]
  cases text : source.drop context.position with
  | nil =>
      apply StepsTo.turn
      split_ifs
      · exact .unterminated
      · exact .done
  | cons byte rest => exact stepsTo_skipByte mode context byte rest

theorem turnsInto_skipTurn {turn : SkipTurn} (step : skipTurn source mode context = .ok turn) :
    TurnsInto (source.drop context.position) context turn := by
  have steps := stepsTo_skipTurn source mode context
  rw [step] at steps
  cases steps with
  | turn into => exact into

theorem skipTurn_error {fault : Fault} (step : skipTurn source mode context = .error fault) :
    fault = .assertion := by
  have steps := stepsTo_skipTurn source mode context
  rw [step] at steps
  cases steps with
  | assertion => rfl

/-- `lexer_skip_spaces` comes to an end: every turn that goes on moves the position. -/
theorem skipLoop_ne_outOfFuel {fuel : ℕ}
    (enough : source.length - context.position < fuel) :
    skipLoop source fuel mode context ≠ .error .outOfFuel := by
  induction fuel generalizing mode context with
  | zero => cases enough
  | succ fuel ih =>
      rw [skipLoop]
      cases turn : skipTurn source mode context with
      | error fault =>
          rw [skipTurn_error turn]
          rintro ⟨⟩
      | ok result =>
          cases turnsInto_skipTurn turn with
          | done => rintro ⟨⟩
          | unterminated => rintro ⟨⟩
          | next skips =>
              rcases skips with ⟨count, positive, position, _⟩
              have inside : context.position < source.length := by
                by_contra outside
                rw [skipTurn, List.drop_eq_nil_of_le (not_lt.mp outside)] at turn
                by_cases comment : mode = .multiLineComment
                · simp [comment] at turn
                · simp [comment] at turn
              exact ih (by omega)

theorem lexerSkipSpaces_ne_outOfFuel (context : LexerContext) :
    lexerSkipSpaces source context ≠ .error .outOfFuel := by
  rw [lexerSkipSpaces]
  split_ifs
  · rintro ⟨⟩
  · exact skipLoop_ne_outOfFuel (Nat.lt_succ_of_le (Nat.sub_le _ _))

/-- The line counter is one more than the number of line ends in front of the position. -/
theorem LexerReaches.passes {place : Option SkipMode} (reaches : LexerReaches source place context) :
    ∃ count, Passes lexerLineEnds source count (source.drop context.position) ∧
      context.line = (count + 1) % 0x100000000 := by
  induction reaches with
  | start => exact ⟨0, .refl source, rfl⟩
  | token _ noLineEnd sameLine ih =>
      rcases ih with ⟨count, passes, line⟩
      refine ⟨count, ?_, sameLine.trans line⟩
      simpa using passes.trans noLineEnd
  | noSkip _ _ ih => exact ih
  | skip _ _ ih => exact ih
  | turn _ step ih =>
      rcases ih with ⟨count, passes, line⟩
      cases turnsInto_skipTurn step with
      | next skips =>
          rcases skips with ⟨skipped, _, position, ⟨plain, sameLine⟩ | ⟨lineEnd, nextLine⟩⟩
          · refine ⟨count, ?_, sameLine.trans line⟩
            rw [position, ← List.drop_drop]
            simpa using passes.trans plain
          · refine ⟨1 + count, ?_, by omega⟩
            rw [position, ← List.drop_drop]
            exact passes.trans lineEnd
  | done _ step ih =>
      cases turnsInto_skipTurn step with
      | done => exact ih

end Reaching

end Cmsframe
