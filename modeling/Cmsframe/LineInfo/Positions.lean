import Cmsframe.LineInfo.Skipped

/-!
# The positions of the byte code

A look-up in the generated data against the records of the parser. The two runs of the
generator agree on the size of the data. Look-ups find the position that was recorded last in
front of an offset, except in a stretch whose item closes a chunk with a wrong line bit, and
where that position is left out for an earlier one at the same final offset.
-/

namespace Cmsframe

variable {first record : LineRecord} {later records : List LineRecord}

namespace LineInfoWriter

variable {header : List UInt8} {torn : UInt32 → Prop} {writer measuring writing : LineInfoWriter}

/-- The offsets that are looked up wrongly: the record closes a chunk, and the line bit of the
item in front of it is wrong. -/
def TornIn : LineInfoWriter → List LineRecord → UInt32 → Prop
  | _, [], _ => False
  | writer, record :: records, offset =>
    (writer.blockSize.isSome ∧ writer.skips record = false ∧ writer.tears record.offset ∧
      writer.streamByteCodeOffset ≤ offset ∧ offset < record.offset) ∨
    ∃ next, writer.emitRecord record = some next ∧ TornIn next records offset

theorem keptAfter_cons_of_skips {last : LineRecord}
    (lastOffset : writer.lastByteCodeOffset = last.offset) (prevLine : writer.prevLine = last.line)
    (prevColumn : writer.prevColumn = last.column) :
    keptAfter last (record :: records) =
      if writer.skips record = true then keptAfter last records
      else record :: keptAfter record records := by
  simp only [keptAfter, skips, decide_eq_true_eq, lastOffset, prevLine, prevColumn]
  simp only [eq_comm (a := record.offset), eq_comm (a := record.line), eq_comm (a := record.column)]

/-- A wrong line bit takes an end offset that is encoded in more than a byte. -/
theorem long_of_tears {offset : UInt32} (tears : writer.tears offset) :
    127 ≤ (offset - writer.streamByteCodeOffset).toNat := by
  by_contra short
  apply tears.2
  have isBit := lineBit_lt writer.streamPrevLine writer.streamCurrentLine
  have gap : (offset - writer.streamByteCodeOffset).toNat < 2 ^ 31 := by
    omega
  have value : (writer.itemValue offset).toNat = (offset - writer.streamByteCodeOffset).toNat * 2 +
      (lineBit writer.streamPrevLine writer.streamCurrentLine).toNat :=
    toNat_shiftLeft_or_bit gap isBit
  have oneByte : writer.itemValue offset < encodeTwoByteMin := by
    rw [UInt32.lt_iff_toNat_lt]
    change _ < 254
    omega
  have masked : writer.itemValue offset &&& 1 =
      lineBit writer.streamPrevLine writer.streamCurrentLine := shiftLeft_or_bit_and gap isBit
  rw [parserLineInfoEncodeSmall, if_pos oneByte, List.headD_cons, UInt8.toUInt32_and,
    toUInt32_toUInt8 (by omega)]
  exact masked

/-- The pending item behind a record that was not skipped. -/
theorem emitRecord_next {block : ℕ} {next : LineInfoWriter} (kept : writer.skips record = false)
    (opened : writer.blockSize = some block) (emitted : writer.emitRecord record = some next) :
    next.blockSize.isSome = true ∧ next.lastByteCodeOffset = record.offset ∧
      next.prevLine = record.line ∧ next.prevColumn = record.column ∧
      next.streamByteCodeOffset = record.offset := by
  rw [emitRecord_of_open kept opened] at emitted
  split_ifs at emitted
  · obtain rfl := Option.some.inj emitted
    refine ⟨?_, rfl, rfl, rfl, rfl⟩
    change writer.blockSize.isSome = true
    rw [opened]
    rfl
  · rw [closeChunk] at emitted
    split_ifs at emitted
    obtain rfl := Option.some.inj emitted
    exact ⟨rfl, rfl, rfl, rfl, rfl⟩

/-- Records of which each is close to the one before. -/
def Near (earlier later : LineRecord) : Prop := (later.offset - earlier.offset).toNat < 127

theorem not_tornIn {last : LineRecord} {offset : UInt32} (opened : writer.blockSize.isSome = true)
    (lastOffset : writer.lastByteCodeOffset = last.offset) (prevLine : writer.prevLine = last.line)
    (prevColumn : writer.prevColumn = last.column)
    (near : List.IsChain Near
      ({ last with offset := writer.streamByteCodeOffset } :: keptAfter last records)) :
    ¬writer.TornIn records offset := by
  induction records generalizing writer last with
  | nil => exact id
  | cons record records ih =>
      rw [keptAfter_cons_of_skips lastOffset prevLine prevColumn] at near
      rintro (⟨_, kept, tears, _⟩ | ⟨next, emitted, torn⟩)
      · rw [kept, if_neg (by simp), List.isChain_cons_cons] at near
        have long := long_of_tears tears
        have short : (record.offset - writer.streamByteCodeOffset).toNat < 127 := near.1
        omega
      · by_cases skipped : writer.skips record = true
        · obtain rfl : writer = next := by
            rw [emitRecord, if_pos skipped] at emitted
            exact Option.some.inj emitted
          rw [if_pos skipped] at near
          exact ih opened lastOffset prevLine prevColumn near torn
        · obtain ⟨block, isOpen⟩ := Option.isSome_iff_exists.mp opened
          obtain ⟨nextOpened, nextOffset, nextLine, nextColumn, pending⟩ :=
            emitRecord_next (by simpa using skipped) isOpen emitted
          rw [if_neg skipped, List.isChain_cons_cons] at near
          apply ih nextOpened nextOffset nextLine nextColumn ?_ torn
          rw [pending]
          exact near.2

/-- A run over further records. -/
theorem writes_foldlM (writes : Writes header first later torn writer)
    (grows : Grows (lastRecord first later :: records)) :
    ∃ final, records.foldlM emitRecord writer = some final ∧
      Writes header first (later ++ keptAfter (lastRecord first later) records)
        (fun offset => torn offset ∨ writer.TornIn records offset) final := by
  induction records generalizing later torn writer with
  | nil =>
      refine ⟨writer, rfl, ?_⟩
      simpa [keptAfter, TornIn] using writes
  | cons record records ih =>
      obtain ⟨pending, closed, stream, chunks, baseLine, chunk, answers⟩ := id writes
      have opened : writer.blockSize.isSome = true := by
        rw [chunk.blockSize]
        rfl
      rw [List.foldlM_cons, keptAfter_cons_of_skips pending.lastOffset pending.prevLine
        pending.prevColumn]
      by_cases skipped : writer.skips record = true
      · have emitted : writer.emitRecord record = some writer := by
          rw [emitRecord, if_pos skipped]
        obtain ⟨final, run, written⟩ := ih writes grows.skip
        refine ⟨final, by rw [emitted]; exact run, ?_⟩
        simpa [skipped, TornIn, emitted] using written
      · have follows : writer.Follows record := by
          refine ⟨?_, grows.2 record (by simp), by simpa using skipped⟩
          rw [pending.lastOffset]
          exact (List.pairwise_cons.mp grows.1).1 record (List.mem_cons_self ..)
        obtain ⟨next, emitted, nextWrites⟩ := writes_emitRecord writes follows
        have last : lastRecord first (later ++ [record]) = record := lastRecord_append
        obtain ⟨final, run, written⟩ := ih nextWrites (by rw [last]; exact grows.tail)
        refine ⟨final, by rw [emitted]; exact run, ?_⟩
        rw [last] at written
        simpa [skipped, TornIn, emitted, opened, or_assoc, List.append_assoc] using written

theorem emitRecord_first (lineInfo : Option (List UInt8)) (isLine : first.line ≠ 0)
    (small : first.offset.toNat < 2 ^ 31) :
    (start lineInfo).emitRecord first =
      some (((start lineInfo).remember first).startChunk first) := by
  have notLast : first.offset ≠ 0xffffffff := by
    intro isLast
    rw [isLast] at small
    exact absurd small (by simp)
  exact emitRecord_of_closed (by simp [skips, start, notLast, isLine]) rfl

theorem tornIn_first (lineInfo : Option (List UInt8)) (isLine : first.line ≠ 0)
    (small : first.offset.toNat < 2 ^ 31) (records : List LineRecord) :
    (start lineInfo).TornIn (first :: records) =
      (((start lineInfo).remember first).startChunk first).TornIn records := by
  have closed : (start lineInfo).blockSize = none := rfl
  funext offset
  simp [TornIn, emitRecord_first lineInfo isLine small, closed]

/-- A run over all records, the first of which opens a chunk. -/
theorem writes_run (header : List UInt8) (isLine : first.line ≠ 0)
    (grows : Grows (first :: records)) :
    ∃ final, (first :: records).foldlM emitRecord (start (some header)) = some final ∧
      Writes header first (keptAfter first records)
        ((start (some header)).TornIn (first :: records)) final := by
  have small := grows.2 first (List.mem_cons_self ..)
  obtain ⟨final, run, written⟩ := writes_foldlM (writes_startChunk header first) grows
  refine ⟨final, ?_, ?_⟩
  · rw [List.foldlM_cons, emitRecord_first (some header) isLine small]
    exact run
  · rw [tornIn_first (some header) isLine small]
    simpa [lastRecord] using written

/-! ## The two runs -/

/-- The two runs at the same record: they differ in what they do with the bytes. -/
structure Twin (headerLength : ℕ) (measuring writing : LineInfoWriter) : Prop where
  same : writing = { measuring with
    lineInfo := writing.lineInfo
    totalLength := writing.totalLength
    blockSize := writing.blockSize }
  opened : writing.blockSize.isSome = measuring.blockSize.isSome
  idle : measuring.blockSize = none → measuring.streamSize = 0
  measures : measuring.lineInfo = none
  written : ∃ bytes, writing.lineInfo = some bytes ∧
    bytes.length = headerLength + measuring.totalLength + measuring.streamSize

theorem twin_startChunk {headerLength total : ℕ} {bytes : List UInt8} {block : Option ℕ}
    (measures : measuring.lineInfo = none)
    (length : bytes.length = headerLength + measuring.totalLength) :
    Twin headerLength (measuring.startChunk record)
      ({ measuring with
        lineInfo := some bytes, totalLength := total, blockSize := block }.startChunk record) := by
  have counted : (measuring.startChunk record).totalLength = measuring.totalLength +
      ((parserLineInfoEncodeVlq
        (parserLineInfoDifferenceGet record.line measuring.blockPrevLine)).length + 1) := by
    simp [startChunk, write, count, measures]
  refine ⟨rfl, rfl, fun _ => rfl, ?_, _, rfl, ?_⟩
  · simp [startChunk, write, count, measures]
  · rw [counted]
    change (bytes ++ (_ ++ [0])).length = _ + 0
    simp only [List.length_append, List.length_singleton, length]
    omega

/-- An item goes into the open chunks of both runs. -/
theorem twin_addItem {headerLength total block : ℕ} {bytes : List UInt8}
    (opened : measuring.blockSize.isSome = true) (measures : measuring.lineInfo = none)
    (length : bytes.length = headerLength + measuring.totalLength + measuring.streamSize) :
    Twin headerLength ((measuring.remember record).addItem record)
      (({ measuring with
        lineInfo := some bytes, totalLength := total, blockSize := some block }.remember
          record).addItem record) := by
  refine ⟨rfl, opened.symm, ?_, ?_, _, rfl, ?_⟩
  · intro closed
    change measuring.blockSize = none at closed
    rw [closed] at opened
    cases opened
  · rw [addItem_lineInfo]
    change measuring.lineInfo.map _ = none
    rw [measures]
    rfl
  · change (bytes ++ measuring.pendingItem record.offset).length = headerLength +
      measuring.totalLength + (measuring.streamSize + (measuring.pendingItem record.offset).length)
    rw [List.length_append, length]
    omega

/-- Both runs close their chunks with an item and open the next ones. -/
theorem twin_nextChunk {headerLength total block : ℕ} {bytes : List UInt8}
    (measures : measuring.lineInfo = none)
    (length : bytes.length = headerLength + measuring.totalLength + measuring.streamSize) :
    Twin headerLength ((measuring.remember record).nextChunk record)
      (({ measuring with
        lineInfo := some bytes, totalLength := total, blockSize := some block }.remember
          record).nextChunk record) := by
  refine twin_startChunk ?_ ?_
  · change (measuring.lineInfo.map _).map _ = none
    rw [measures]
    rfl
  · change (bytes.set _ _ ++ (measuring.closingItem record.offset ++ parserLineInfoEncodeVlq
      (record.offset - measuring.blockByteCodeOffset))).length = headerLength +
        (count (measuring.closedSize + (parserLineInfoEncodeVlq
          (record.offset - measuring.blockByteCodeOffset)).length) _).totalLength
    rw [totalLength_count]
    · change _ = headerLength + (measuring.totalLength + _)
      simp only [List.length_append, List.length_set, length, closingItem, List.length_cons,
        closedSize]
      omega
    · change (measuring.lineInfo.map _).map _ = none
      rw [measures]
      rfl

/-- A record takes both runs on, or stops both. -/
theorem Twin.step {headerLength : ℕ} (twin : Twin headerLength measuring writing)
    (record : LineRecord) :
    (measuring.emitRecord record = none ∧ writing.emitRecord record = none) ∨
      ∃ measured written, measuring.emitRecord record = some measured ∧
        writing.emitRecord record = some written ∧ Twin headerLength measured written := by
  obtain ⟨same, opened, idle, measures, bytes, written, length⟩ := twin
  rw [written] at same
  generalize writing.totalLength = total at same
  generalize writing.blockSize = block at same opened
  subst same
  by_cases skipped : measuring.skips record = true
  · exact .inr ⟨_, _, if_pos skipped, if_pos skipped, rfl, opened, idle, measures, bytes, rfl, length⟩
  have kept : measuring.skips record = false := by
    simpa using skipped
  cases measuringBlock : measuring.blockSize with
  | none =>
      obtain rfl : block = none := by
        simpa [measuringBlock] using opened
      refine .inr ⟨_, _, emitRecord_of_closed kept measuringBlock, emitRecord_of_closed kept rfl, ?_⟩
      exact @twin_startChunk record (measuring.remember record) headerLength total bytes none
        measures (by rw [length, idle measuringBlock]; rfl)
  | some index =>
      obtain ⟨writingIndex, rfl⟩ : ∃ index, block = some index := by
        simpa [measuringBlock, Option.isSome_iff_exists] using opened
      have measured := emitRecord_of_open kept measuringBlock
      have written := @emitRecord_of_open { measuring with
        lineInfo := some bytes, totalLength := total, blockSize := some writingIndex } record
        writingIndex kept rfl
      by_cases room : measuring.hasRoom record.offset = true
      · refine .inr ⟨_, _, measured.trans (if_pos room), written.trans (if_pos room), ?_⟩
        exact twin_addItem (by rw [measuringBlock]; rfl) measures length
      · have measuredClose := measured.trans (if_neg room)
        have writtenClose := written.trans (if_neg room)
        by_cases fits : streamSizeMin.toNat < measuring.closedSize ∧
            measuring.closedSize - streamSizeMin.toNat ≤ 255
        · refine .inr ⟨_, _, measuredClose.trans (if_pos fits), writtenClose.trans (if_pos fits), ?_⟩
          exact twin_nextChunk measures length
        · exact .inl ⟨measuredClose.trans (if_neg fits), writtenClose.trans (if_neg fits)⟩

theorem Twin.tornIn {headerLength : ℕ} (twin : Twin headerLength measuring writing)
    (records : List LineRecord) : writing.TornIn records = measuring.TornIn records := by
  induction records generalizing measuring writing with
  | nil => rfl
  | cons record records ih =>
      funext offset
      have opened := twin.opened
      have skips : writing.skips record = measuring.skips record := by
        rw [twin.same]
        rfl
      have tears : writing.tears record.offset = measuring.tears record.offset := by
        rw [twin.same]
        rfl
      have pending : writing.streamByteCodeOffset = measuring.streamByteCodeOffset := by
        rw [twin.same]
      simp only [TornIn, opened, skips, tears, pending]
      rcases twin.step record with ⟨measured, written⟩ | ⟨nextMeasured, nextWritten, measured,
        written, next⟩
      · simp [measured, written]
      · simp [measured, written, ih next]

/-- The run that measures takes as long as the one that writes. -/
theorem Twin.foldlM {headerLength : ℕ} {final : LineInfoWriter}
    (twin : Twin headerLength measuring writing)
    (run : records.foldlM emitRecord writing = some final) :
    ∃ measured, records.foldlM emitRecord measuring = some measured ∧
      Twin headerLength measured final := by
  induction records generalizing measuring writing with
  | nil =>
      obtain rfl : writing = final := by simpa using run
      exact ⟨measuring, rfl, twin⟩
  | cons record records ih =>
      rcases twin.step record with ⟨_, stopped⟩ | ⟨nextMeasured, nextWritten, measured, written, next⟩
      · rw [List.foldlM_cons, stopped] at run
        cases run
      · rw [List.foldlM_cons, written] at run
        obtain ⟨final, rest, twin⟩ := ih next run
        refine ⟨final, ?_, twin⟩
        rw [List.foldlM_cons, measured]
        exact rest

theorem twin_start (header : List UInt8) :
    Twin header.length (start none) (start (some header)) :=
  ⟨rfl, rfl, fun _ => rfl, rfl, header, rfl, rfl⟩

/-- What the first run adds up is the length of what the second run writes. -/
theorem Twin.finish {headerLength : ℕ} (twin : Twin headerLength measuring writing) :
    ∃ bytes, writing.finish.lineInfo = some bytes ∧
      bytes.length = headerLength + measuring.finish.totalLength := by
  obtain ⟨same, opened, idle, measures, bytes, written, length⟩ := twin
  have buffer : writing.lineColumnBuffer = measuring.lineColumnBuffer := by
    rw [same]
    rfl
  have counted : measuring.finish.totalLength = measuring.totalLength +
      (measuring.streamSize + 1 + measuring.lineColumnBuffer.length) := by
    apply totalLength_count
    change (measuring.lineInfo.map _).map _ = none
    rw [measures]
    rfl
  refine ⟨bytes.set (writing.blockSize.getD 0) 0 ++ ((if writing.streamPrevLine ≠
    writing.streamCurrentLine then (1 : UInt8) else 0) :: writing.lineColumnBuffer), ?_, ?_⟩
  · change (writing.lineInfo.map _).map _ = _
    rw [written]
    rfl
  · rw [counted, List.length_append, List.length_set, List.length_cons, length, buffer]
    omega

theorem Writes.blockSize_isSome (writes : Writes header first later torn writer) :
    ∃ block, writer.blockSize = some block := by
  obtain ⟨_, _, _, _, _, chunk, _⟩ := writes
  exact ⟨_, chunk.blockSize⟩

end LineInfoWriter

open LineInfoWriter

variable {target : Target} {byteCodePages : List (List UInt8)} {calls : List LineRecord}

/-- The data for placed records: its length, and the chunks that answer the look-ups. -/
theorem parserLineInfoGenerate_spec (called : calls ≠ []) (grows : Grows calls)
    (isPlaced : (keptRecords calls).mapM (LineRecord.place target byteCodePages) =
      some (first :: later))
    (placedGrow : Grows (first :: later)) (isLine : first.line ≠ 0) :
    ∃ lineInfo body, parserLineInfoAppendAll target calls = some lineInfo ∧
      parserLineInfoGenerate target lineInfo.pages.all byteCodePages =
        some (parserLineInfoEncodeVlq (UInt32.ofNat body.length) ++ body,
          UInt32.ofNat (body.length +
            (parserLineInfoEncodeVlq (UInt32.ofNat body.length)).length)) ∧
      ∀ offset, searchChunks body.length body 1 0 offset =
        some (positionAt first (keptAfter first later) offset) ↔
          ¬(start none).TornIn (first :: later) offset := by
  obtain ⟨lineInfo, appended, holds⟩ := parserLineInfoAppendAll_holds target called grows
  have nonempty : keptRecords calls ≠ [] := by
    intro none
    rw [none] at isPlaced
    simp at isPlaced
  have keptGrow := grows.sublist (keptRecords_sublist calls)
  have runs := generateRun_eq nonempty holds keptGrow isPlaced
  -- the run that writes, behind any length
  have writing : ∀ header : List UInt8, ∃ measured final body,
      (first :: later).foldlM emitRecord (start none) = some measured ∧
      (first :: later).foldlM emitRecord (start (some header)) = some final ∧
      final.finish.lineInfo = some (header ++ body) ∧
      body.length = measured.finish.totalLength ∧
      (∃ block, measured.blockSize = some block) ∧ (∃ block, final.blockSize = some block) ∧
      ∀ offset, searchChunks body.length body 1 0 offset =
        some (positionAt first (keptAfter first later) offset) ↔
          ¬(start none).TornIn (first :: later) offset := by
    intro header
    obtain ⟨final, run, writes⟩ := writes_run header isLine placedGrow
    obtain ⟨measured, measuredRun, twin⟩ := (twin_start header).foldlM run
    obtain ⟨body, written, answers⟩ := writes_finish writes
    obtain ⟨bytes, alsoWritten, length⟩ := twin.finish
    obtain ⟨block, opened⟩ := writes.blockSize_isSome
    have measuredOpened := twin.opened
    rw [opened, Option.isSome_some] at measuredOpened
    refine ⟨measured, final, body, measuredRun, run, written, ?_,
      Option.isSome_iff_exists.mp measuredOpened.symm, ⟨block, opened⟩, ?_⟩
    · rw [written, Option.some.injEq] at alsoWritten
      rw [← alsoWritten, List.length_append] at length
      omega
    · rwa [(twin_start header).tornIn] at answers
  obtain ⟨measured, _, _, measuredRun, _, _, _, ⟨measuredBlock, measuredOpened⟩, _⟩ := writing []
  obtain ⟨again, final, body, againRun, finalRun, written, length, _, ⟨block, opened⟩, answers⟩ :=
    writing (parserLineInfoEncodeVlq (UInt32.ofNat measured.finish.totalLength))
  obtain rfl : measured = again := by
    rw [measuredRun] at againRun
    exact Option.some.inj againRun
  refine ⟨lineInfo, body, appended, ?_, answers⟩
  have measure : generateRun target lineInfo.pages.all byteCodePages none =
      some measured.finish := by
    rw [runs, measuredRun, Option.bind_some, measuredOpened, Option.bind_some]
  have write : generateRun target lineInfo.pages.all byteCodePages
      (some (parserLineInfoEncodeVlq (UInt32.ofNat measured.finish.totalLength))) =
      some final.finish := by
    rw [runs, finalRun, Option.bind_some, opened, Option.bind_some]
  have asserted : (parserLineInfoEncodeVlq (UInt32.ofNat body.length)).length + body.length =
      (parserLineInfoEncodeVlq (UInt32.ofNat body.length) ++ body).length :=
    List.length_append.symm
  rw [← length] at write written
  simp only [parserLineInfoGenerate, measure, write, Option.bind_eq_bind, Option.bind_some,
    written, ← length, if_pos asserted]

variable {call : LineRecord} {code : List CopiedByte}

/-- The offsets at which the position recorded last is left out for an earlier one. -/
def Shadowed (code : List CopiedByte) (call : LineRecord) (calls : List LineRecord)
    (offset : UInt32) : Prop :=
  ShadowedIn (call.placeIn code) (recordedPositions code call calls) offset

/-- The offsets of the byte code whose item closes a chunk with a wrong line bit. -/
def Torn (code : List CopiedByte) (call : LineRecord) (calls : List LineRecord)
    (offset : UInt32) : Prop :=
  (start none).TornIn ((keptRecords (call :: calls)).map (LineRecord.placeIn code)) offset

theorem keptCalls_inside (inside : ∀ record ∈ calls, record.offset.toNat ≤ code.length) :
    ∀ record ∈ keptRecords calls, record.offset.toNat ≤ code.length := by
  intro record mem
  exact inside record ((keptRecords_sublist calls).subset mem)

/-- The data for compacted byte code. -/
theorem parserLineInfoGenerate_compactByteCode (target : Target) (grows : Grows (call :: calls))
    (inside : ∀ record ∈ call :: calls, record.offset.toNat ≤ code.length)
    (isLine : call.line ≠ 0) :
    ∃ lineInfo body, parserLineInfoAppendAll target (call :: calls) = some lineInfo ∧
      parserLineInfoGenerate target lineInfo.pages.all (compactByteCode target code).all =
        some (parserLineInfoEncodeVlq (UInt32.ofNat body.length) ++ body,
          UInt32.ofNat (body.length +
            (parserLineInfoEncodeVlq (UInt32.ofNat body.length)).length)) ∧
      ∀ offset, searchChunks body.length body 1 0 offset =
        some (positionAt (call.placeIn code)
          (keptAfter (call.placeIn code) (recordedPositions code call calls)) offset) ↔
          ¬Torn code call calls offset := by
  have placedGrow := (grows.sublist (keptRecords_sublist _)).placeIn code
  exact parserLineInfoGenerate_spec (by simp) grows (mapM_place (keptCalls_inside inside))
    placedGrow isLine

theorem sorted_recordedPositions (code : List CopiedByte) (grows : Grows (call :: calls)) :
    (recordedPositions code call calls).Pairwise
      fun earlier later => earlier.offset ≤ later.offset :=
  (List.pairwise_cons.mp ((grows.sublist (keptRecords_sublist (call :: calls))).placeIn code).1).2

/-- A look-up of an offset finds the position that the parser recorded last in front of it,
unless the item there closes a chunk with a wrong line bit, or the position is left out for an
earlier one at the same final offset. (Where both is the case, the wrong bit can hide that.) -/
theorem ecmaLineInfoGet_iff (target : Target) (grows : Grows (call :: calls))
    (inside : ∀ record ∈ call :: calls, record.offset.toNat ≤ code.length)
    (isLine : call.line ≠ 0) :
    ∃ lineInfo data size, parserLineInfoAppendAll target (call :: calls) = some lineInfo ∧
      parserLineInfoGenerate target lineInfo.pages.all (compactByteCode target code).all =
        some (data, size) ∧
      ∀ offset, ¬(Torn code call calls offset ∧ Shadowed code call calls offset) →
        (ecmaLineInfoGet data offset =
          some (positionAt (call.placeIn code) (recordedPositions code call calls) offset) ↔
            ¬Torn code call calls offset ∧ ¬Shadowed code call calls offset) := by
  obtain ⟨lineInfo, body, appended, generated, answers⟩ :=
    parserLineInfoGenerate_compactByteCode target grows inside isLine
  refine ⟨lineInfo, _, _, appended, generated, ?_⟩
  intro offset notBoth
  have kept : positionAt (call.placeIn code)
      (keptAfter (call.placeIn code) (recordedPositions code call calls)) offset =
        positionAt (call.placeIn code) (recordedPositions code call calls) offset ↔
      ¬Shadowed code call calls offset :=
    positionAt_keptAfter_iff (sorted_recordedPositions code grows)
  rw [ecmaLineInfoGet, ecmaLineInfoDecodeVlq_encode]
  change searchChunks body.length body 1 0 offset = _ ↔ _
  by_cases shadowed : Shadowed code call calls offset
  · have found := (answers offset).mpr fun torn => notBoth ⟨torn, shadowed⟩
    rw [found, Option.some.injEq, kept]
    exact iff_of_false (not_not_intro shadowed) fun both => both.2 shadowed
  · rw [← kept.mpr shadowed, answers offset, and_iff_left shadowed]

/-- Two records, the second behind a byte that was removed. -/
theorem ecmaLineInfoGet_iff_twoRecords :
    ∃ lineInfo data size,
      parserLineInfoAppendAll .bits64 [⟨0, 1, 1⟩, ⟨3, 2, 5⟩] = some lineInfo ∧
      parserLineInfoGenerate .bits64 lineInfo.pages.all
        (compactByteCode .bits64 [⟨true, false⟩, ⟨true, true⟩, ⟨false, false⟩, ⟨true, false⟩]).all =
        some (data, size) ∧
      ∀ offset, ¬(Torn [⟨true, false⟩, ⟨true, true⟩, ⟨false, false⟩, ⟨true, false⟩] ⟨0, 1, 1⟩
          [⟨3, 2, 5⟩] offset ∧
        Shadowed [⟨true, false⟩, ⟨true, true⟩, ⟨false, false⟩, ⟨true, false⟩] ⟨0, 1, 1⟩ [⟨3, 2, 5⟩]
          offset) →
        (ecmaLineInfoGet data offset = some (positionAt ⟨0, 1, 1⟩ [⟨2, 2, 5⟩] offset) ↔
          ¬Torn [⟨true, false⟩, ⟨true, true⟩, ⟨false, false⟩, ⟨true, false⟩] ⟨0, 1, 1⟩
              [⟨3, 2, 5⟩] offset ∧
            ¬Shadowed [⟨true, false⟩, ⟨true, true⟩, ⟨false, false⟩, ⟨true, false⟩] ⟨0, 1, 1⟩
              [⟨3, 2, 5⟩] offset) :=
  ecmaLineInfoGet_iff .bits64 ⟨by simp [UInt32.le_iff_toNat_le], by simp⟩ (by simp) (by simp)

/-- With fewer than 127 bytes of byte code from each position to the next, and some of it left
between them, every look-up finds the position that was recorded. -/
theorem ecmaLineInfoGet_near (target : Target) (grows : Grows (call :: calls))
    (inside : ∀ record ∈ call :: calls, record.offset.toNat ≤ code.length)
    (isLine : call.line ≠ 0)
    (apart : List.IsChain (fun earlier later : LineRecord => later.offset ≠ earlier.offset)
      (call.placeIn code :: recordedPositions code call calls))
    (near : List.IsChain Near
      ({ call with offset := 0 } :: recordedPositions code call calls)) :
    ∃ lineInfo data size, parserLineInfoAppendAll target (call :: calls) = some lineInfo ∧
      parserLineInfoGenerate target lineInfo.pages.all (compactByteCode target code).all =
        some (data, size) ∧
      ∀ offset, ecmaLineInfoGet data offset =
        some (positionAt (call.placeIn code) (recordedPositions code call calls) offset) := by
  have changing : List.IsChain (fun earlier later : LineRecord => ¬later.SamePosition earlier)
      (call.placeIn code :: recordedPositions code call calls) := by
    have kept := isChain_keptAfter call calls
    exact (List.isChain_cons_map (LineRecord.placeIn code)).mpr kept
  have all : keptAfter (call.placeIn code) (recordedPositions code call calls) =
      recordedPositions code call calls :=
    keptAfter_eq_self apart changing
  have whole : ∀ offset, ¬Torn code call calls offset := by
    intro offset
    have small : (call.placeIn code).offset.toNat < 2 ^ 31 := by
      rw [toNat_placeIn (grows.2 call (List.mem_cons_self ..))]
      have fewer := keptCount_take_le code call.offset.toNat
      have bound := grows.2 call (List.mem_cons_self ..)
      omega
    rw [Torn, keptRecords, List.map_cons,
      @tornIn_first (call.placeIn code) none isLine small _]
    rw [← all] at near
    exact @not_tornIn _ _ (call.placeIn code) offset rfl rfl rfl rfl near
  obtain ⟨lineInfo, body, appended, generated, answers⟩ :=
    parserLineInfoGenerate_compactByteCode target grows inside isLine
  refine ⟨lineInfo, _, _, appended, generated, ?_⟩
  intro offset
  have found := (answers offset).mpr (whole offset)
  rw [all] at found
  rw [ecmaLineInfoGet, ecmaLineInfoDecodeVlq_encode]
  exact found

theorem ecmaLineInfoGet_near_twoRecords :
    ∃ lineInfo data size,
      parserLineInfoAppendAll .bits32 [⟨0, 1, 1⟩, ⟨3, 2, 5⟩] = some lineInfo ∧
      parserLineInfoGenerate .bits32 lineInfo.pages.all
        (compactByteCode .bits32 [⟨true, false⟩, ⟨true, true⟩, ⟨false, false⟩, ⟨true, false⟩]).all =
        some (data, size) ∧
      ∀ offset, ecmaLineInfoGet data offset =
        some (positionAt ⟨0, 1, 1⟩ [⟨2, 2, 5⟩] offset) := by
  have apart : List.IsChain (fun earlier later : LineRecord => later.offset ≠ earlier.offset)
      [⟨0, 1, 1⟩, ⟨2, 2, 5⟩] := by
    simp
  have near : List.IsChain Near [⟨0, 1, 1⟩, ⟨2, 2, 5⟩] := by
    simp [Near]
  exact ecmaLineInfoGet_near .bits32 ⟨by simp [UInt32.le_iff_toNat_le], by simp⟩ (by simp)
    (by simp) apart near

/-- The block has room for exactly the data, and is released with the size that it was
allocated with. -/
theorem ecmaLineInfoFree_generate (target : Target) (grows : Grows (call :: calls))
    (inside : ∀ record ∈ call :: calls, record.offset.toNat ≤ code.length)
    (isLine : call.line ≠ 0) :
    ∃ lineInfo data size, parserLineInfoAppendAll target (call :: calls) = some lineInfo ∧
      parserLineInfoGenerate target lineInfo.pages.all (compactByteCode target code).all =
        some (data, size) ∧
      size = UInt32.ofNat data.length ∧ ecmaLineInfoFree data = some size := by
  obtain ⟨lineInfo, body, appended, generated, _⟩ :=
    parserLineInfoGenerate_compactByteCode target grows inside isLine
  refine ⟨lineInfo, _, _, appended, generated, ?_, ?_⟩
  · rw [List.length_append, Nat.add_comm]
  · rw [ecmaLineInfoFree, ecmaLineInfoDecodeVlq_encode]
    simp

theorem ecmaLineInfoFree_generate_twoRecords :
    ∃ lineInfo data size,
      parserLineInfoAppendAll .bits64 [⟨0, 1, 1⟩, ⟨3, 2, 5⟩] = some lineInfo ∧
      parserLineInfoGenerate .bits64 lineInfo.pages.all
        (compactByteCode .bits64 [⟨true, false⟩, ⟨true, true⟩, ⟨false, false⟩, ⟨true, false⟩]).all =
        some (data, size) ∧
      size = UInt32.ofNat data.length ∧ ecmaLineInfoFree data = some size :=
  ecmaLineInfoFree_generate .bits64 ⟨by simp [UInt32.le_iff_toNat_le], by simp⟩ (by simp) (by simp)

end Cmsframe
