import Cmsframe.Report.Lexer
import Cmsframe.Report.Reporter

/-!
# The line of a syntax error

The reporter seeks a line by counting line feeds, while the lexer counts five kinds of line
ends. The excerpt is the line the lexer means exactly if the line ends in front of it and the
one behind it have a line feed that the reporter sees where the line ends.
-/

namespace Cmsframe

open Lines (cut dropLines Passes)

/-- The source from a line of the lexer on. -/
def fromLine (source : List UInt8) (line : ℕ) : Option (List UInt8) :=
  dropLines lexerLineEnds (line - 1) source

/-- The line a text begins with. -/
def lineText (start : List UInt8) : List UInt8 := (cut lexerLineEnds start).1

/-- The excerpt begins where the lexer's line begins, and what is printed in front of the line
of the caret are the first bytes of that line. Position counts: a seek that runs past an empty
line does not show it, although nothing is printed either, as for line 2 of CR CR. -/
def ShowsLine (source : List UInt8) (line column : ℕ) : Prop :=
  ∃ start pos printed caret, fromLine source line = some start ∧
    printSource source line column = .ok (printed ++ asciiBytes "\n" :: caret) ∧
    seekLine source line (source.length + 1) 1 0 = .ok pos ∧
    printLine source cmsSyntaxErrorMaxLineLength pos = .ok printed ∧
    pos = source.length - start.length ∧
    printed.flatten = (lineText start).take cmsSyntaxErrorMaxLineLength

/-- A line of the lexer that a reader of line feeds also finds: all line ends in front of it
have a line feed, or it is empty and the last one; it ends with a line feed alone, at the end
of the source, or not before the excerpt does; and the excerpt has no NUL. An empty line behind a
lone CR is not read alike, since the seek runs past it. -/
structure ReadsAlike (source : List UInt8) (line : ℕ) (start : List UInt8) : Prop where
  found : start = [] ∨ (source.take (source.length - start.length)).count 0x0A = line - 1
  ended : cmsSyntaxErrorMaxLineLength ≤ (lineText start).length ∨ start = lineText start ∨
    ∃ more, start = lineText start ++ 0x0A :: more
  noNul : 0 ∉ (lineText start).take cmsSyntaxErrorMaxLineLength

section LineFeeds

/-- The text behind some line feeds. -/
def afterFeeds : ℕ → List UInt8 → List UInt8
  | 0, text => text
  | _ + 1, [] => []
  | count + 1, byte :: text => afterFeeds (if byte = 0x0A then count else count + 1) text

theorem afterFeeds_zero (text : List UInt8) : afterFeeds 0 text = text := by
  cases text <;> rfl

theorem afterFeeds_suffix (count : ℕ) (text : List UInt8) : afterFeeds count text <:+ text := by
  induction text generalizing count with
  | nil => cases count <;> exact List.suffix_rfl
  | cons byte text ih =>
      cases count with
      | zero => exact List.suffix_rfl
      | succ count => exact (ih _).trans (List.suffix_cons byte text)

variable (source : List UInt8)

/-- The seek passes the line feeds that are still to be passed. -/
theorem seekLine_eq {errLine currLine fuel pos : ℕ} (inside : pos ≤ source.length)
    (enough : source.length - pos < fuel) :
    seekLine source errLine fuel currLine pos =
      .ok (source.length - (afterFeeds (errLine - currLine) (source.drop pos)).length) := by
  induction fuel generalizing currLine pos with
  | zero => cases enough
  | succ fuel ih =>
      rw [seekLine]
      split_ifs with goesOn
      · have split := List.drop_eq_getElem_cons goesOn.1
        have enough' : source.length - (pos + 1) < fuel := by omega
        rw [sourceByte_of_lt source goesOn.1]
        simp only [bind, Except.bind]
        rw [ih goesOn.1 enough', split]
        obtain ⟨left, isLeft⟩ : ∃ left, errLine - currLine = left + 1 :=
          ⟨errLine - currLine - 1, by omega⟩
        rw [isLeft, afterFeeds]
        by_cases lineFeed : source[pos] = 0x0A
        · have fewer : errLine - (currLine + 1) = left := by omega
          simp [lineFeed, fewer]
        · simp [lineFeed, isLeft]
      · rcases Nat.lt_or_ge pos source.length with before | atEnd
        · have none : errLine - currLine = 0 := by omega
          rw [none, afterFeeds_zero, List.length_drop, Nat.sub_sub_self inside]
          rfl
        · rw [List.drop_eq_nil_of_le atEnd, le_antisymm inside atEnd]
          cases errLine - currLine <;> rfl

/-- The line is printed up to the line feed or as far as there is room. -/
theorem printLine_eq (room pos : ℕ) :
    printLine source room pos =
      .ok ((((source.drop pos).takeWhile fun byte => byte ≠ 0x0A).take room).map logChar) := by
  induction room generalizing pos with
  | zero => rw [printLine, List.take_zero, List.map_nil]; rfl
  | succ room ih =>
      rw [printLine]
      split_ifs with inside
      · rw [sourceByte_of_lt source inside, List.drop_eq_getElem_cons inside]
        simp only [bind, Except.bind, ih (pos + 1), List.get_eq_getElem]
        generalize source[pos] = byte
        split_ifs with notFeed
        · rw [List.takeWhile_cons_of_pos (by simpa using notFeed)]
          rfl
        · rw [List.takeWhile_cons_of_neg (by simpa using notFeed)]
          rfl
      · rw [List.drop_eq_nil_of_le (not_lt.mp inside)]
        rfl

/-- Where the seek for a line ends. -/
theorem seekLine_start (line : ℕ) :
    seekLine source line (source.length + 1) 1 0 =
      .ok (source.length - (afterFeeds (line - 1) source).length) :=
  @seekLine_eq source line 1 (source.length + 1) 0 (Nat.zero_le _) (Nat.lt_succ_self _)

/-- What is printed from there on. -/
theorem printLine_start (line room : ℕ) :
    printLine source room (source.length - (afterFeeds (line - 1) source).length) =
      .ok ((((afterFeeds (line - 1) source).takeWhile fun byte => byte ≠ 0x0A).take room).map
        logChar) := by
  rw [printLine_eq, ← List.suffix_iff_eq_drop.mp (afterFeeds_suffix (line - 1) source)]

/-- The excerpt is the line with the caret behind as many tildes. -/
theorem printSource_start {line column : ℕ} (small : column + 1 < cmsSyntaxErrorMaxLineLength) :
    printSource source line (column + 1) =
      .ok ((((afterFeeds (line - 1) source).takeWhile fun byte => byte ≠ 0x0A).take
          cmsSyntaxErrorMaxLineLength).map logChar ++
        asciiBytes "\n" :: (List.replicate column (asciiBytes "~") ++ [asciiBytes "^\n\n"])) := by
  have drawn := drawCaret_eq (Nat.lt_of_succ_lt small)
  rw [printSource, seekLine_start]
  simp only [bind, Except.bind, printLine_start, drawn]
  rfl

theorem flatten_map_logChar (text : List UInt8) :
    (text.map logChar).flatten = text.filter fun byte => byte ≠ 0 := by
  induction text with
  | nil => rfl
  | cons byte text ih =>
      rw [List.map_cons, List.flatten_cons, ih, logChar, CString.upToNul]
      by_cases isNul : byte = 0
      · simp [isNul]
      · simp [isNul]

variable {before start : List UInt8} {count : ℕ}

theorem getLast?_tail {byte : UInt8} {text : List UInt8}
    (isLast : byte :: text = [] ∨ (byte :: text).getLast? = some 0x0A) :
    text = [] ∨ text.getLast? = some 0x0A := by
  cases text with
  | nil => exact .inl rfl
  | cons next text =>
      right
      simpa using isLast

/-- A reader of line feeds comes to a place behind as many line feeds, or to the end. -/
theorem afterFeeds_eq_iff (fewer : before.count 0x0A ≤ count)
    (behind : before.count 0x0A = count → before = [] ∨ before.getLast? = some 0x0A) :
    afterFeeds count (before ++ start) = start ↔ start = [] ∨ before.count 0x0A = count := by
  induction before generalizing count with
  | nil =>
      rw [List.nil_append, List.count_nil]
      cases count with
      | zero => exact iff_of_true (afterFeeds_zero start) (.inr rfl)
      | succ count =>
          rw [or_iff_left (Nat.succ_ne_zero count).symm]
          cases start with
          | nil => exact iff_of_true rfl rfl
          | cons byte start =>
              refine iff_of_false ?_ (List.cons_ne_nil byte start)
              intro same
              have shorter :=
                (afterFeeds_suffix (if byte = 0x0A then count else count + 1) start).length_le
              rw [afterFeeds] at same
              rw [same, List.length_cons] at shorter
              omega
  | cons byte before ih =>
      cases count with
      | zero =>
          have none : (byte :: before).count 0x0A = 0 := Nat.le_zero.mp fewer
          rcases behind none with isNil | isLast
          · cases isNil
          · have mem := List.mem_of_getLast? isLast
            exact absurd mem (List.count_eq_zero.mp none)
      | succ count =>
          rw [List.cons_append, afterFeeds]
          by_cases lineFeed : byte = 0x0A
          · subst lineFeed
            rw [List.count_cons_self, Nat.add_le_add_iff_right] at fewer
            rw [if_pos rfl, List.count_cons_self, Nat.add_right_cancel_iff]
            apply ih fewer
            intro all
            exact getLast?_tail (behind (by rw [List.count_cons_self, all]))
          · rw [List.count_cons_of_ne lineFeed] at fewer behind ⊢
            rw [if_neg lineFeed]
            apply ih fewer
            intro all
            exact getLast?_tail (behind all)

end LineFeeds

section LexerLines

/-- The line ends of the lexer. -/
theorem lineEnd_cases {lineEnd rest : List UInt8} (isEnd : 0 < lineEndLength (lineEnd ++ rest))
    (length : lineEnd.length = lineEndLength (lineEnd ++ rest)) :
    lineEnd ∈ [[0x0D, 0x0A], [0x0D], [0x0A], [0xE2, 0x80, 0xA8], [0xE2, 0x80, 0xA9]] := by
  rcases lineEnd with _ | ⟨first, lineEnd⟩
  · rw [← length] at isEnd
    exact absurd isEnd (lt_irrefl 0)
  · rw [List.cons_append, lineEndLength] at length isEnd
    split_ifs at length isEnd with isCr lineFeed isLf separator
    · obtain ⟨second, rfl⟩ := List.length_eq_one_iff.mp (Nat.succ.inj length)
      cases lineFeed
      simp [isCr]
    · rw [List.length_eq_zero_iff.mp (Nat.succ.inj length)]
      simp [isCr]
    · rw [List.length_eq_zero_iff.mp (Nat.succ.inj length)]
      simp [isLf]
    · obtain ⟨second, third, rfl⟩ := List.length_eq_two.mp (Nat.succ.inj length)
      rcases separator with ⟨rfl, same | same⟩
      · cases same
        simp
      · cases same
        simp

theorem lineFeed_notMem_lineText (start : List UInt8) : 0x0A ∉ lineText start := by
  intro mem
  have plain : ∀ first text, lexerLineEnds.length (first :: text) = 0 → first ≠ 0x0A := by
    rintro _ text isPlain rfl
    exact absurd isPlain Nat.one_ne_zero
  exact Lines.forall_mem_cut plain start _ mem rfl

/-- In front of a line there are at most as many line feeds as line ends, and the last of as
many is right in front of the line. -/
theorem exists_before_line {count : ℕ} {source start : List UInt8}
    (dropped : dropLines lexerLineEnds count source = some start) :
    ∃ before, source = before ++ start ∧ before.count 0x0A ≤ count ∧
      (before.count 0x0A = count → before = [] ∨ before.getLast? = some 0x0A) := by
  induction count generalizing source with
  | zero =>
      cases dropped
      exact ⟨[], rfl, le_refl 0, fun _ => .inl rfl⟩
  | succ count ih =>
      rw [dropLines] at dropped
      rcases Option.bind_eq_some_iff.mp dropped with ⟨rest, goesOn, later⟩
      rcases Lines.exists_of_cut_some goesOn with ⟨lineEnd, split, isEnd, length⟩
      rcases ih later with ⟨before, rfl, fewer, behind⟩
      have noFeed : (cut lexerLineEnds source).1.count 0x0A = 0 :=
        List.count_eq_zero.mpr (lineFeed_notMem_lineText source)
      have atMostOne : lineEnd.count 0x0A ≤ 1 ∧ (lineEnd.count 0x0A = 1 →
          lineEnd.getLast? = some 0x0A) := by
        have cases := lineEnd_cases isEnd length
        simp only [List.mem_cons, List.not_mem_nil, or_false] at cases
        rcases cases with rfl | rfl | rfl | rfl | rfl <;> decide
      refine ⟨(cut lexerLineEnds source).1 ++ (lineEnd ++ before), ?_, ?_, ?_⟩
      · simpa using split
      · rw [List.count_append, List.count_append, noFeed]
        omega
      · rw [List.count_append, List.count_append, noFeed]
        intro all
        right
        rcases behind (by omega) with rfl | isLast
        · have last := atMostOne.2 (by omega)
          simp [List.getLast?_append, last]
        · simp [List.getLast?_append, isLast]

/-- Behind a line the text ends, or a line end begins, which is not a NUL. -/
theorem exists_behind_line (start : List UInt8) :
    ∃ behind, start = lineText start ++ behind ∧ behind.head? ≠ some 0 := by
  cases rest : (cut lexerLineEnds start).2 with
  | none => exact ⟨[], by rw [List.append_nil, lineText, Lines.eq_of_cut_none rest], nofun⟩
  | some rest' =>
      rcases Lines.exists_of_cut_some rest with ⟨lineEnd, split, isEnd, length⟩
      refine ⟨lineEnd ++ rest', split, ?_⟩
      have cases := lineEnd_cases isEnd length
      simp only [List.mem_cons, List.not_mem_nil, or_false] at cases
      rcases cases with rfl | rfl | rfl | rfl | rfl <;> simp

/-- What is printed from the beginning of a line on. -/
theorem printed_eq_iff (start : List UInt8) (room : ℕ) :
    (((start.takeWhile fun byte => byte ≠ 0x0A).take room).filter fun byte => byte ≠ 0) =
      (lineText start).take room ↔
    (room ≤ (lineText start).length ∨ start = lineText start ∨
      ∃ more, start = lineText start ++ 0x0A :: more) ∧ 0 ∉ (lineText start).take room := by
  rcases exists_behind_line start with ⟨behind, split, first⟩
  have noFeed : ∀ byte ∈ lineText start, decide (byte ≠ 0x0A) = true := by
    intro byte mem
    simpa using fun isFeed : byte = 0x0A => lineFeed_notMem_lineText start (isFeed ▸ mem)
  generalize lineText start = line at split noFeed
  subst split
  rw [List.takeWhile_append_of_pos noFeed, List.take_append, List.filter_append]
  have kept (noNul : 0 ∉ line.take room) :
      (line.take room).filter (fun byte => byte ≠ 0) = line.take room := by
    rw [List.filter_eq_self]
    intro byte mem
    simpa using fun isNul : byte = 0 => noNul (isNul ▸ mem)
  constructor
  · intro same
    have noNul : 0 ∉ line.take room := by
      intro mem
      rw [← same, ← List.filter_append, List.mem_filter] at mem
      exact absurd rfl (of_decide_eq_true mem.2)
    refine ⟨?_, noNul⟩
    rw [kept noNul, List.append_right_eq_self] at same
    by_cases enough : room ≤ line.length
    · exact .inl enough
    · right
      obtain ⟨left, isLeft⟩ : ∃ left, room - line.length = left + 1 :=
        ⟨room - line.length - 1, by omega⟩
      rw [isLeft] at same
      cases behind with
      | nil => exact .inl (List.append_nil line)
      | cons next behind =>
          by_cases isFeed : next = 0x0A
          · exact .inr ⟨behind, by rw [isFeed]⟩
          · have notNul : next ≠ 0 := fun isNul => first (congrArg some isNul)
            rw [List.takeWhile_cons_of_pos (by simpa using isFeed), List.take_succ_cons,
              List.filter_cons_of_pos (by simpa using notNul)] at same
            cases same
  · rintro ⟨ended, noNul⟩
    rw [kept noNul, List.append_right_eq_self]
    rcases ended with enough | same | ⟨more, same⟩
    · rw [Nat.sub_eq_zero_of_le enough, List.take_zero]
      rfl
    · rw [List.append_right_eq_self.mp same]
      simp
    · rw [List.append_cancel_left same]
      simp

end LexerLines

/-- At every position the lexer reaches, the excerpt for its line and column shows that line
exactly if a reader of line feeds reads the line alike. -/
theorem showsLine_iff {source : List UInt8} (fits : source.length < 2 ^ 32)
    {place : Option SkipMode} {context : LexerContext}
    (reaches : LexerReaches source place context) (line_pos : 0 < context.line)
    (column_pos : 0 < context.column) (column_lt : context.column < cmsSyntaxErrorMaxLineLength) :
    ShowsLine source context.line context.column ↔
      ∃ start, fromLine source context.line = some start ∧
        ReadsAlike source context.line start := by
  rcases reaches.passes with ⟨count, passes, line⟩
  have bound := passes.count_le
  have isCount : context.line - 1 = count := by omega
  rcases passes.dropLines with ⟨start, dropped, _⟩
  have found : fromLine source context.line = some start := by
    rw [fromLine, isCount]
    exact dropped
  rcases exists_before_line dropped with ⟨before, split, fewer, behind⟩
  have sought := seekLine_start source context.line
  have printed := printLine_start source context.line cmsSyntaxErrorMaxLineLength
  rw [isCount] at sought printed
  have inFront : source.take (source.length - start.length) = before := by
    rw [split, List.length_append, Nat.add_sub_cancel, List.take_left' rfl]
  have meets : afterFeeds count source = start ↔
      start = [] ∨ before.count 0x0A = count := by
    conv_lhs => rw [split]
    exact afterFeeds_eq_iff fewer behind
  constructor
  · rintro ⟨start', pos, text, caret, found', _, sought', printed', isPos, same⟩
    cases found.symm.trans found'
    cases sought.symm.trans sought'
    have here : afterFeeds count source = start := by
      have startSuffix : start <:+ source := ⟨before, split.symm⟩
      rw [List.suffix_iff_eq_drop.mp (afterFeeds_suffix count source), isPos,
        ← List.suffix_iff_eq_drop.mp startSuffix]
    cases printed.symm.trans printed'
    rw [here, flatten_map_logChar, printed_eq_iff] at same
    refine ⟨start, found, ?_, same.1, same.2⟩
    rw [inFront, isCount]
    exact meets.mp here
  · rintro ⟨start', found', alike⟩
    cases found.symm.trans found'
    have isFound := alike.found
    rw [inFront, isCount] at isFound
    have here : afterFeeds count source = start := meets.mpr isFound
    obtain ⟨column, isColumn⟩ : ∃ column, context.column = column + 1 :=
      ⟨context.column - 1, by omega⟩
    rw [isColumn] at column_lt ⊢
    have shown := @printSource_start source context.line column column_lt
    rw [isCount, here] at shown
    rw [here] at sought printed
    refine ⟨start, _, _, _, found, shown, sought, printed, rfl, ?_⟩
    rw [flatten_map_logChar]
    exact (printed_eq_iff start _).mpr ⟨alike.ended, alike.noNul⟩

/-- A lone CR, and an error in the second line. -/
def loneReturn : List UInt8 := [0x0D, 0x7D]

theorem loneReturn_reached :
    LexerReaches loneReturn (some .spaces) ⟨1, 2, 1, 0, 0, true, false⟩ :=
  .turn (.skip .start rfl) rfl

theorem showsLine_loneReturn : ShowsLine loneReturn 2 1 ↔
    ∃ start, fromLine loneReturn 2 = some start ∧ ReadsAlike loneReturn 2 start :=
  showsLine_iff (by decide) loneReturn_reached (by decide) (by decide) (by decide)

/-- The excerpt for the second line is empty. -/
theorem not_showsLine_loneReturn :
    LexerReaches loneReturn (some .spaces) ⟨1, 2, 1, 0, 0, true, false⟩ ∧
      ¬ShowsLine loneReturn 2 1 := by
  refine ⟨loneReturn_reached, ?_⟩
  rintro ⟨start, pos, printed, caret, found, _, sought, _, isPos, _⟩
  have line : fromLine loneReturn 2 = some [0x7D] := rfl
  have stops : seekLine loneReturn 2 (loneReturn.length + 1) 1 0 = .ok 2 := rfl
  rw [line] at found
  rw [stops] at sought
  cases found
  cases sought
  exact absurd isPos (by decide)

end Cmsframe
