import Cmsframe.LineInfo.Generate

/-!
# The records of a run

The iterator of a run yields the records that the parser kept, each at the offset that its
byte code has in the end.
-/

namespace Cmsframe

/-- Where the byte code at a recorded offset is in the end. -/
def finalOffset (target : Target) (byteCodePages : List (List UInt8)) (offset : UInt32) :
    Option UInt32 := do
  let (pages, offset, base) ← skipByteCodePages target byteCodePages offset.toNat 0
  byteCodeOffset pages offset base

/-- A record at the final offset of its byte code. -/
def LineRecord.place (target : Target) (byteCodePages : List (List UInt8)) (record : LineRecord) :
    Option LineRecord :=
  (finalOffset target byteCodePages record.offset).map fun offset => { record with offset := offset }

variable {target : Target} {byteCodePages : List (List UInt8)} {previous record placed : LineRecord}
  {records placedAll : List LineRecord} {iterator : RecordIterator} {numbers : List UInt32}

/-- Moving on from where a loop over the pages ended is moving from its start. -/
theorem skipByteCodePages_add {pages rest : List (List UInt8)} {offset inPage : ℕ}
    {base restBase : UInt32} (more : ℕ)
    (skipped : skipByteCodePages target pages offset base = some (rest, inPage, restBase)) :
    skipByteCodePages target rest (inPage + more) restBase =
      skipByteCodePages target pages (offset + more) base := by
  induction pages generalizing offset base with
  | nil =>
      simp only [skipByteCodePages] at skipped
      split_ifs at skipped
      simp only [Option.some.injEq, Prod.mk.injEq] at skipped
      obtain ⟨rfl, rfl, rfl⟩ := skipped
      rfl
  | cons page pages ih =>
      by_cases passes : offset ≥ parserCbcStreamPageSize target
      · simp only [skipByteCodePages, if_pos passes, Option.bind_eq_bind,
          Option.bind_eq_some_iff] at skipped
        obtain ⟨relativeOffset, read, skipped⟩ := skipped
        have later : offset + more ≥ parserCbcStreamPageSize target := by
          omega
        have behind : offset + more - parserCbcStreamPageSize target =
            offset - parserCbcStreamPageSize target + more := by
          omega
        rw [ih skipped, skipByteCodePages, if_pos later, read, behind]
        rfl
      · simp only [skipByteCodePages, if_neg passes, Option.some.injEq, Prod.mk.injEq] at skipped
        obtain ⟨rfl, rfl, rfl⟩ := skipped
        rfl

/-- The iterator behind a record: what is left to read are the given numbers. -/
structure RecordIterator.IsBehind (target : Target) (byteCodePages : List (List UInt8))
    (iterator : RecordIterator) (previous : LineRecord) (numbers : List UInt32) : Prop where
  holds : HoldsNumbers iterator.pages numbers
  line : iterator.line = previous.line
  column : iterator.column = previous.column
  offset : skipByteCodePages target byteCodePages previous.offset.toNat 0 =
    some (iterator.byteCodePages, iterator.byteCodePageOffset, iterator.byteCodeBase)

/-- The next record is read, and placed at its final offset. -/
theorem nextRecord_spec (isBehind : iterator.IsBehind target byteCodePages previous
      (recordNumbers previous record ++ numbers))
    (behind : previous.offset ≤ record.offset) (small : record.offset.toNat < 2 ^ 31)
    (isPlaced : record.place target byteCodePages = some placed) :
    ∃ next, nextRecord target iterator = some (placed, next) ∧
      next.IsBehind target byteCodePages record numbers := by
  have gap := offset_sub_lt behind small
  have difference : (record.offset - previous.offset).toNat =
      record.offset.toNat - previous.offset.toNat := UInt32.toNat_sub_of_le _ _ behind
  have le := UInt32.le_iff_toNat_le.mp behind
  have moved : previous.offset.toNat + (record.offset - previous.offset).toNat =
      record.offset.toNat := by
    omega
  have skip := skipByteCodePages_add (record.offset - previous.offset).toNat isBehind.offset
  rw [moved] at skip
  simp only [LineRecord.place, Option.map_eq_some_iff, finalOffset, Option.bind_eq_bind,
    Option.bind_eq_some_iff] at isPlaced
  obtain ⟨offset, ⟨⟨pages, inPage, base⟩, skipped, read⟩, rfl⟩ := isPlaced
  rw [skipped] at skip
  simp only at read
  have isBit : (if record.line ≠ previous.line then (1 : UInt32) else 0).toNat < 2 := by
    split_ifs <;> simp
  have shifted := shiftLeft_or_bit_shiftRight gap isBit
  have masked := shiftLeft_or_bit_and gap isBit
  have column : ecmaLineInfoDifferenceUpdate iterator.column
      (parserLineInfoDifferenceGet record.column previous.column) = record.column := by
    rw [isBehind.column, ecmaLineInfoDifferenceUpdate_get]
  have holds := isBehind.holds
  by_cases sameLine : record.line = previous.line
  · simp only [sameLine, ne_eq, not_true_eq_false, if_false] at shifted masked
    simp only [recordNumbers, sameLine, ne_eq, not_true_eq_false, if_false, List.nil_append,
      List.cons_append] at holds
    generalize ((record.offset - previous.offset) <<< 1) ||| 0 = value at shifted masked holds
    obtain ⟨first, readFirst, holds⟩ := holds.next
    obtain ⟨second, readSecond, holds⟩ := holds.next
    refine ⟨⟨second, pages, inPage, base, record.line, record.column⟩, ?_, holds, rfl, rfl, skipped⟩
    simp [nextRecord, readFirst, shifted, masked, readSecond, skip, read, column, isBehind.line,
      sameLine, -UInt32.toNat_shiftRight]
  · have line : ecmaLineInfoDifferenceUpdate iterator.line
        (parserLineInfoDifferenceGet record.line previous.line) = record.line := by
      rw [isBehind.line, ecmaLineInfoDifferenceUpdate_get]
    have changed : parserLineInfoDifferenceGet record.line previous.line ≠ 1 := by
      intro none
      apply ecmaLineInfoDifferenceUpdate_get_ne 0 sameLine
      rw [none]
      rfl
    simp only [sameLine, ne_eq, not_false_eq_true, if_true] at shifted masked
    simp only [recordNumbers, sameLine, ne_eq, not_false_eq_true, if_true, List.cons_append] at holds
    generalize ((record.offset - previous.offset) <<< 1) ||| 1 = value at shifted masked holds
    obtain ⟨first, readFirst, holds⟩ := holds.next
    obtain ⟨second, readSecond, holds⟩ := holds.next
    obtain ⟨third, readThird, holds⟩ := holds.next
    refine ⟨⟨third, pages, inPage, base, record.line, record.column⟩, ?_, holds, rfl, rfl, skipped⟩
    simp [nextRecord, readFirst, shifted, masked, readSecond, changed, line, readThird, skip, read,
      column, -UInt32.toNat_shiftRight]

/-- The loop over the recorded numbers is a loop over the placed records. -/
theorem generateLoop_eq {fuel : ℕ} {writer : LineInfoWriter} (nonempty : records ≠ [])
    (enough : records.length ≤ fuel)
    (isBehind : iterator.IsBehind target byteCodePages previous (recordStream previous records))
    (grows : Grows (previous :: records))
    (isPlaced : records.mapM (LineRecord.place target byteCodePages) = some placedAll) :
    generateLoop target fuel iterator writer = placedAll.foldlM LineInfoWriter.emitRecord writer := by
  induction records generalizing fuel iterator writer previous placedAll with
  | nil => exact absurd rfl nonempty
  | cons record records ih =>
      obtain ⟨fuel, rfl⟩ : ∃ more, fuel = more + 1 := ⟨fuel - 1, by simp at enough; omega⟩
      have behind : previous.offset ≤ record.offset :=
        (List.pairwise_cons.mp grows.1).1 record (List.mem_cons_self ..)
      have small : record.offset.toNat < 2 ^ 31 := grows.2 record (by simp)
      simp only [List.mapM_cons, Option.pure_def, Option.bind_eq_bind, Option.bind_eq_some_iff,
        Option.some.injEq] at isPlaced
      obtain ⟨placed, placeOne, placedRest, placeRest, rfl⟩ := isPlaced
      obtain ⟨next, read, nextBehind⟩ := nextRecord_spec isBehind behind small placeOne
      simp only [generateLoop, read, Option.bind_eq_bind, Option.bind_some, List.foldlM_cons]
      cases emitted : writer.emitRecord placed with
      | none => rfl
      | some emittedWriter =>
          simp only [Option.bind_some]
          cases records with
          | nil =>
              have ended : next.pages = [] := nextBehind.holds.nil_iff.mpr rfl
              simp only [List.mapM_nil, Option.pure_def, Option.some.injEq] at placeRest
              subst placeRest
              rw [if_pos ended]
              rfl
          | cons second records =>
              have more : next.pages ≠ [] := by
                intro ended
                have none := nextBehind.holds.nil_iff.mp ended
                simp [recordStream, recordNumbers] at none
              rw [if_neg more]
              exact ih (by simp) (by simpa using enough) nextBehind grows.tail placeRest

theorem length_le_pageBytes (numbers : List UInt32) :
    numbers.length ≤ (pageBytes numbers).length := by
  induction numbers with
  | nil => simp
  | cons value numbers ih =>
      have nonempty := List.length_pos_iff.mpr (parserLineInfoEncodeVlq_ne_nil value)
      have split : pageBytes (value :: numbers) =
          parserLineInfoEncodeVlq value ++ pageBytes numbers := rfl
      rw [split, List.length_append, List.length_cons]
      omega

theorem flatten_map_pageBytes (groups : List (List UInt32)) :
    (groups.map pageBytes).flatten = pageBytes groups.flatten := by
  induction groups with
  | nil => rfl
  | cons group groups ih => simp only [List.map_cons, List.flatten_cons, pageBytes_append, ih]

/-- Every number takes a byte at least. -/
theorem HoldsNumbers.length_le {pages : List (List UInt8)} (holds : HoldsNumbers pages numbers) :
    numbers.length ≤ pages.flatten.length := by
  obtain ⟨groups, nonempty, rfl, rfl⟩ := holds
  rw [flatten_map_pageBytes]
  exact length_le_pageBytes _

theorem length_le_recordStream (previous : LineRecord) (records : List LineRecord) :
    records.length ≤ (recordStream previous records).length := by
  induction records generalizing previous with
  | nil => exact Nat.zero_le _
  | cons record records ih =>
      have rest := ih record
      simp only [recordStream, recordNumbers, List.length_append, List.length_cons]
      omega

/-- A run of the generator is a run over the placed records. -/
theorem generateRun_eq {pages : List (List UInt8)} (nonempty : records ≠ [])
    (holds : HoldsNumbers pages (recordStream firstRecord records)) (grows : Grows records)
    (isPlaced : records.mapM (LineRecord.place target byteCodePages) = some placedAll)
    (lineInfo : Option (List UInt8)) :
    generateRun target pages byteCodePages lineInfo =
      (placedAll.foldlM LineInfoWriter.emitRecord (.start lineInfo)).bind fun writer =>
        writer.blockSize.bind fun _ => some writer.finish := by
  have enough : records.length ≤ pages.flatten.length :=
    Nat.le_trans (length_le_recordStream firstRecord records) holds.length_le
  have growsAll : Grows (firstRecord :: records) := by
    refine ⟨List.pairwise_cons.mpr ⟨?_, grows.1⟩, ?_⟩
    · intro record _
      exact UInt32.le_iff_toNat_le.mpr (Nat.zero_le _)
    · intro record mem
      rcases List.mem_cons.mp mem with rfl | mem
      · exact Nat.two_pow_pos 31
      · exact grows.2 record mem
  have skipped : skipByteCodePages target byteCodePages 0 0 = some (byteCodePages, 0, 0) := by
    have positive : ¬0 ≥ parserCbcStreamPageSize target := by
      cases target <;> simp [parserCbcStreamPageSize, Target.sizeofPointer]
    cases byteCodePages <;> exact if_neg positive
  have isBehind : (⟨pages, byteCodePages, 0, 0, 1, 1⟩ : RecordIterator).IsBehind target
      byteCodePages firstRecord (recordStream firstRecord records) := ⟨holds, rfl, rfl, skipped⟩
  rw [generateRun, generateLoop_eq nonempty enough isBehind growsAll isPlaced]
  rfl

end Cmsframe
