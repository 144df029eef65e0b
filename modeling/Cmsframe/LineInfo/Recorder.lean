import Cmsframe.LineInfo.Encoding

/-!
# Recording positions

`parser_line_info_append` writes the positions of the byte code into a list of pages while a
function is parsed. A number never crosses the end of a page. What the iterator reads from
the pages are the numbers in the order in which they were written.
-/

namespace Cmsframe

/-- The size of a pointer, on which the sizes of pages depend. -/
inductive Target where
  | bits32
  | bits64

def Target.sizeofPointer : Target → ℕ
  | .bits32 => 4
  | .bits64 => 8

/-- `PARSER_STACK_PAGE_SIZE` -/
def parserStackPageSize (target : Target) : ℕ :=
  (if target.sizeofPointer > 4 then 128 else 64) - target.sizeofPointer

/-- A position in the source, and the size of the byte code when it was recorded. -/
structure LineRecord where
  offset : UInt32
  line : UInt32
  column : UInt32
  deriving DecidableEq

/-- A list of pages: the bytes of a page up to its count, without the byte that holds the
count. -/
structure LinePages where
  full : List (List UInt8)
  last : List UInt8

def LinePages.all (pages : LinePages) : List (List UInt8) := pages.full ++ [pages.last]

/-- `parser_line_info_data_t` with the pages behind it. -/
structure ParserLineInfoData where
  pages : LinePages
  byteCodePosition : UInt32
  line : UInt32
  column : UInt32

def parserLineInfoAppendNumber (target : Target) (pages : LinePages) (value : UInt32) :
    LinePages :=
  let buffer := parserLineInfoEncodeVlq value
  let offset := pages.last.length + 1
  if offset + buffer.length ≤ parserStackPageSize target then
    { pages with last := pages.last ++ buffer }
  else ⟨pages.full ++ [pages.last], buffer⟩

/-- The part of `parser_line_info_append` behind its checks. -/
def appendPosition (target : Target) (lineInfo : ParserLineInfoData) (record : LineRecord) :
    ParserLineInfoData :=
  let value := ((record.offset - lineInfo.byteCodePosition) <<< 1) |||
    (if record.line ≠ lineInfo.line then 1 else 0)
  let hasLine := value &&& 1 ≠ 0
  let pages := parserLineInfoAppendNumber target lineInfo.pages value
  let pages :=
    if hasLine then
      parserLineInfoAppendNumber target pages
        (parserLineInfoDifferenceGet record.line lineInfo.line)
    else pages
  let pages := parserLineInfoAppendNumber target pages
    (parserLineInfoDifferenceGet record.column lineInfo.column)
  ⟨pages, record.offset, if hasLine then record.line else lineInfo.line, record.column⟩

def parserLineInfoAppend (target : Target) (lineInfo : Option ParserLineInfoData)
    (record : LineRecord) : ParserLineInfoData :=
  match lineInfo with
  | some lineInfo =>
    if lineInfo.byteCodePosition = record.offset ∨
        (lineInfo.line = record.line ∧ lineInfo.column = record.column) then
      lineInfo
    else appendPosition target lineInfo record
  | none => appendPosition target ⟨⟨[], []⟩, 0, 1, 1⟩ record

/-- `parser_line_info_iterator_get`: the iterator is the unread bytes of its page and the
pages behind it. -/
def parserLineInfoIteratorGet : List (List UInt8) → Option (UInt32 × List (List UInt8))
  | [] => none
  | page :: pages => do
    let (result, unread) ← ecmaLineInfoDecodeVlq page
    if unread = [] then some (result, pages) else some (result, unread :: pages)

/-! ## The numbers on the pages -/

/-- The bytes of a page with the given numbers. -/
def pageBytes (numbers : List UInt32) : List UInt8 := numbers.flatMap parserLineInfoEncodeVlq

/-- The pages hold the numbers, and no page is empty. -/
def HoldsNumbers (pages : List (List UInt8)) (numbers : List UInt32) : Prop :=
  ∃ groups : List (List UInt32),
    (∀ group ∈ groups, group ≠ []) ∧ pages = groups.map pageBytes ∧ groups.flatten = numbers

variable {target : Target} {lineInfo : ParserLineInfoData} {written : LinePages}
  {numbers : List UInt32} {pages : List (List UInt8)}

@[simp] theorem pageBytes_nil : pageBytes [] = [] := rfl

theorem pageBytes_append (first second : List UInt32) :
    pageBytes (first ++ second) = pageBytes first ++ pageBytes second :=
  List.flatMap_append

theorem pageBytes_eq_nil {numbers : List UInt32} : pageBytes numbers = [] ↔ numbers = [] := by
  constructor
  · intro isEmpty
    cases numbers with
    | nil => rfl
    | cons value numbers =>
        simp [pageBytes, parserLineInfoEncodeVlq_ne_nil] at isEmpty
  · rintro rfl
    rfl

/-- The iterator returns the first number and moves behind it. -/
theorem HoldsNumbers.next {value : UInt32} (holds : HoldsNumbers pages (value :: numbers)) :
    ∃ unread, parserLineInfoIteratorGet pages = some (value, unread) ∧
      HoldsNumbers unread numbers := by
  obtain ⟨groups, nonempty, rfl, flat⟩ := holds
  cases groups with
  | nil => simp at flat
  | cons group groups =>
      cases group with
      | nil => exact absurd rfl (nonempty [] (List.mem_cons_self ..))
      | cons first group =>
          have others : ∀ group ∈ groups, group ≠ [] := by
            intro group mem
            exact nonempty group (List.mem_cons_of_mem _ mem)
          simp only [List.flatten_cons, List.cons_append, List.cons.injEq] at flat
          obtain ⟨rfl, rfl⟩ := flat
          have read : ecmaLineInfoDecodeVlq (pageBytes (first :: group)) =
              some (first, pageBytes group) := by
            rw [pageBytes, List.flatMap_cons, ecmaLineInfoDecodeVlq_encode, pageBytes]
          simp only [List.map_cons, parserLineInfoIteratorGet, read, Option.bind_eq_bind,
            Option.bind_some]
          by_cases last : group = []
          · subst last
            exact ⟨_, if_pos rfl, groups, others, rfl, by simp⟩
          · refine ⟨_, if_neg ?_, group :: groups, ?_, rfl, by simp⟩
            · rwa [pageBytes_eq_nil]
            · simp only [List.mem_cons, forall_eq_or_imp]
              exact ⟨last, others⟩

theorem HoldsNumbers.nil_iff (holds : HoldsNumbers pages numbers) :
    pages = [] ↔ numbers = [] := by
  obtain ⟨groups, nonempty, rfl, rfl⟩ := holds
  constructor
  · intro isEmpty
    simp only [List.map_eq_nil_iff] at isEmpty
    simp [isEmpty]
  · intro isEmpty
    cases groups with
    | nil => rfl
    | cons group groups =>
        simp only [List.flatten_cons, List.append_eq_nil_iff] at isEmpty
        exact absurd isEmpty.1 (nonempty group (List.mem_cons_self ..))

/-- While nothing is written there is one empty page. -/
def LinePages.Wrote (written : LinePages) (numbers : List UInt32) : Prop :=
  ∃ groups last, (∀ group ∈ groups, group ≠ []) ∧ (groups ≠ [] → last ≠ []) ∧
    written.full = groups.map pageBytes ∧ written.last = pageBytes last ∧
    groups.flatten ++ last = numbers

theorem LinePages.Wrote.holds (wrote : written.Wrote numbers)
    (nonempty : numbers ≠ []) : HoldsNumbers written.all numbers := by
  obtain ⟨groups, last, filled, ended, full, lastPage, rfl⟩ := wrote
  have lastFilled : last ≠ [] := by
    by_cases none : groups = []
    · simpa [none] using nonempty
    · exact ended none
  refine ⟨groups ++ [last], ?_, ?_, by simp⟩
  · intro group mem
    rcases List.mem_append.mp mem with inFull | isLast
    · exact filled group inFull
    · rw [List.mem_singleton.mp isLast]
      exact lastFilled
  · rw [LinePages.all, full, lastPage]
    simp

/-- A number goes to the end of what was written, on a new page if the last is full. -/
theorem LinePages.Wrote.appendNumber (wrote : written.Wrote numbers) (target : Target)
    (value : UInt32) : (parserLineInfoAppendNumber target written value).Wrote
      (numbers ++ [value]) := by
  obtain ⟨groups, last, filled, ended, full, lastPage, rfl⟩ := wrote
  have one : pageBytes [value] = parserLineInfoEncodeVlq value := by simp [pageBytes]
  unfold parserLineInfoAppendNumber
  simp only []
  split_ifs with fits
  · refine ⟨groups, last ++ [value], filled, by simp, full, ?_, by simp⟩
    rw [pageBytes_append, one, ← lastPage]
  · have lastFilled : last ≠ [] := by
      rintro rfl
      apply fits
      have short := length_parserLineInfoEncodeVlq_le value
      rw [lastPage]
      cases target <;> simp [parserStackPageSize, Target.sizeofPointer] <;> omega
    refine ⟨groups ++ [last], [value], ?_, by simp, ?_, one.symm, by simp⟩
    · intro group mem
      rcases List.mem_append.mp mem with inFull | isLast
      · exact filled group inFull
      · rw [List.mem_singleton.mp isLast]
        exact lastFilled
    · simp [full, lastPage]

/-! ## A run of the parser -/

/-- What the numbers of a record say: how far it is behind the one before, and where. -/
def recordNumbers (previous record : LineRecord) : List UInt32 :=
  (((record.offset - previous.offset) <<< 1) |||
      (if record.line ≠ previous.line then 1 else 0)) ::
    ((if record.line ≠ previous.line then
        [parserLineInfoDifferenceGet record.line previous.line] else []) ++
      [parserLineInfoDifferenceGet record.column previous.column])

def recordStream : LineRecord → List LineRecord → List UInt32
  | _, [] => []
  | previous, record :: records => recordNumbers previous record ++ recordStream record records

/-- The recorder starts at the first column of the first line. -/
def firstRecord : LineRecord := ⟨0, 1, 1⟩

/-- The calls of `parser_line_info_append` that record something behind the last record:
the byte code has grown, and the position is a different one. -/
def keptAfter : LineRecord → List LineRecord → List LineRecord
  | _, [] => []
  | last, record :: records =>
    if last.offset = record.offset ∨ (last.line = record.line ∧ last.column = record.column) then
      keptAfter last records
    else record :: keptAfter record records

/-- The first call records in any case. -/
def keptRecords : List LineRecord → List LineRecord
  | [] => []
  | first :: records => first :: keptAfter first records

/-- The calls of `parser_line_info_append` for one function. -/
def parserLineInfoAppendAll (target : Target) (records : List LineRecord) :
    Option ParserLineInfoData :=
  records.foldl (fun lineInfo record => some (parserLineInfoAppend target lineInfo record)) none

def ParserLineInfoData.IsAt (lineInfo : ParserLineInfoData) (last : LineRecord) : Prop :=
  lineInfo.byteCodePosition = last.offset ∧ lineInfo.line = last.line ∧
    lineInfo.column = last.column

/-- The byte code only grows, and is far below the range of its offsets. -/
def Grows (records : List LineRecord) : Prop :=
  records.Pairwise (fun earlier later => earlier.offset ≤ later.offset) ∧
    ∀ record ∈ records, record.offset.toNat < 2 ^ 31

variable {last record : LineRecord} {records : List LineRecord}

theorem offset_sub_lt {earlier later : UInt32} (le : earlier ≤ later)
    (small : later.toNat < 2 ^ 31) : (later - earlier).toNat < 2 ^ 31 := by
  have le' := UInt32.le_iff_toNat_le.mp le
  rw [UInt32.toNat_sub_of_le _ _ le]
  omega

/-- One record is written as its numbers. -/
theorem appendPosition_wrote (target : Target) (wrote : lineInfo.pages.Wrote numbers)
    (isAt : lineInfo.IsAt last)
    (small : (record.offset - last.offset).toNat < 2 ^ 31) :
    (appendPosition target lineInfo record).pages.Wrote (numbers ++ recordNumbers last record) ∧
      (appendPosition target lineInfo record).IsAt record := by
  obtain ⟨atOffset, atLine, atColumn⟩ := isAt
  have hasBit := @shiftLeft_or_bit_and (record.offset - last.offset) 1 small (by simp)
  have noBit := @shiftLeft_or_bit_and (record.offset - last.offset) 0 small (by simp)
  simp only [appendPosition, recordNumbers, ParserLineInfoData.IsAt, atOffset, atLine, atColumn]
  by_cases sameLine : record.line = last.line
  · have written := (wrote.appendNumber target
      (((record.offset - last.offset) <<< 1) ||| 0)).appendNumber target
      (parserLineInfoDifferenceGet record.column last.column)
    simp only [sameLine, ne_eq, not_true_eq_false, if_false, noBit, List.nil_append]
    exact ⟨by simpa using written, by simp⟩
  · have written := ((wrote.appendNumber target
      (((record.offset - last.offset) <<< 1) ||| 1)).appendNumber target
      (parserLineInfoDifferenceGet record.line last.line)).appendNumber target
      (parserLineInfoDifferenceGet record.column last.column)
    simp only [sameLine, ne_eq, not_false_eq_true, if_true, hasBit]
    exact ⟨by simpa using written, by simp⟩

theorem Grows.tail {first : LineRecord} (grows : Grows (first :: records)) : Grows records := by
  obtain ⟨sorted, small⟩ := grows
  exact ⟨sorted.tail, fun record mem => small record (List.mem_cons_of_mem _ mem)⟩

/-- A call that records nothing leaves a growing sequence. -/
theorem Grows.skip {first second : LineRecord} (grows : Grows (first :: second :: records)) :
    Grows (first :: records) := by
  obtain ⟨sorted, small⟩ := grows
  constructor
  · exact sorted.sublist (by simp)
  · intro record mem
    apply small
    rcases List.mem_cons.mp mem with rfl | mem
    · simp
    · simp [mem]

theorem Grows.gap {first second : LineRecord} (grows : Grows (first :: second :: records)) :
    (second.offset - first.offset).toNat < 2 ^ 31 := by
  obtain ⟨sorted, small⟩ := grows
  apply offset_sub_lt
  · exact (List.pairwise_cons.mp sorted).1 second (List.mem_cons_self ..)
  · exact small second (by simp)

theorem Grows.sublist {kept : List LineRecord} (grows : Grows records)
    (sublist : kept.Sublist records) : Grows kept :=
  ⟨grows.1.sublist sublist, fun record mem => grows.2 record (sublist.subset mem)⟩

theorem keptAfter_sublist (last : LineRecord) (records : List LineRecord) :
    (keptAfter last records).Sublist records := by
  induction records generalizing last with
  | nil => exact List.Sublist.refl _
  | cons record records ih =>
      unfold keptAfter
      split_ifs
      · exact (ih last).cons record
      · exact (ih record).cons_cons record

theorem keptRecords_sublist (records : List LineRecord) :
    (keptRecords records).Sublist records := by
  cases records with
  | nil => exact List.Sublist.refl _
  | cons first records => exact (keptAfter_sublist first records).cons_cons first

/-- A run goes on writing the records it keeps. -/
theorem appendAll_wrote (target : Target) (wrote : lineInfo.pages.Wrote numbers)
    (isAt : lineInfo.IsAt last)
    (grows : Grows (last :: records)) :
    ∃ final : ParserLineInfoData,
      records.foldl (fun lineInfo record => some (parserLineInfoAppend target lineInfo record))
        (some lineInfo) = some final ∧
      final.pages.Wrote (numbers ++ recordStream last (keptAfter last records)) := by
  induction records generalizing lineInfo last numbers with
  | nil => exact ⟨lineInfo, rfl, by simpa [keptAfter, recordStream] using wrote⟩
  | cons record records ih =>
      obtain ⟨atOffset, atLine, atColumn⟩ := id isAt
      simp only [List.foldl_cons, parserLineInfoAppend, keptAfter, atOffset, atLine, atColumn]
      split_ifs with nothing
      · exact ih wrote isAt grows.skip
      · obtain ⟨wroteNext, isAtNext⟩ := appendPosition_wrote target wrote isAt grows.gap
        obtain ⟨final, run, wroteAll⟩ := ih wroteNext isAtNext grows.tail
        exact ⟨final, run, by simpa [recordStream] using wroteAll⟩

/-- The pages hold the numbers of the records that a run keeps, in their order. -/
theorem parserLineInfoAppendAll_holds (target : Target) (nonempty : records ≠ [])
    (grows : Grows records) :
    ∃ lineInfo, parserLineInfoAppendAll target records = some lineInfo ∧
      HoldsNumbers lineInfo.pages.all (recordStream firstRecord (keptRecords records)) := by
  cases records with
  | nil => exact absurd rfl nonempty
  | cons first records =>
      have start : (⟨⟨[], []⟩, 0, 1, 1⟩ : ParserLineInfoData).pages.Wrote [] :=
        ⟨[], [], by simp, by simp, rfl, rfl, rfl⟩
      have gap : (first.offset - firstRecord.offset).toNat < 2 ^ 31 := by
        simpa [firstRecord] using grows.2 first (List.mem_cons_self ..)
      obtain ⟨wrote, isAt⟩ := @appendPosition_wrote ⟨⟨[], []⟩, 0, 1, 1⟩ [] firstRecord first target
        start ⟨rfl, rfl, rfl⟩ gap
      obtain ⟨final, run, wroteAll⟩ := appendAll_wrote target wrote isAt grows
      refine ⟨final, run, LinePages.Wrote.holds ?_ ?_⟩
      · simpa [keptRecords, recordStream] using wroteAll
      · simp [keptRecords, recordStream, recordNumbers]

end Cmsframe
