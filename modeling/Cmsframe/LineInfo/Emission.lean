import Cmsframe.LineInfo.Lookup

/-!
# What the chunks say

The state of a run that writes the data, in terms of the look-ups that will be made in it.
Offsets in closed chunks are answered already. Every other offset leads to the open chunk, and
in it to the pending item unless it is in front of it. The last item of a chunk is the weak
spot: its line bit is taken from an encoding that may be longer than a byte.
-/

namespace Cmsframe

/-- The position in force at an offset: that of the last record in front of it. -/
def positionAt (current : LineRecord) : List LineRecord → UInt32 → UInt32 × UInt32
  | [], _ => (current.line, current.column)
  | next :: later, offset =>
    if offset < next.offset then (current.line, current.column) else positionAt next later offset

/-- The record that is last. -/
def lastRecord (first : LineRecord) (later : List LineRecord) : LineRecord :=
  later.getLastD first

variable {first record : LineRecord} {later : List LineRecord} {offset : UInt32}

@[simp] theorem lastRecord_append : lastRecord first (later ++ [record]) = record := by
  simp [lastRecord]

theorem positionAt_append_of_lt (before : offset < record.offset) :
    positionAt first (later ++ [record]) offset = positionAt first later offset := by
  induction later generalizing first with
  | nil => simp [positionAt, before]
  | cons next later ih => simp only [List.cons_append, positionAt, ih]

theorem positionAt_of_le (passed : ∀ record ∈ later, record.offset ≤ offset) :
    positionAt first later offset =
      ((lastRecord first later).line, (lastRecord first later).column) := by
  induction later generalizing first with
  | nil => rfl
  | cons next later ih =>
      have notBefore : ¬offset < next.offset := by
        simpa using passed next (List.mem_cons_self ..)
      have rest : ∀ record ∈ later, record.offset ≤ offset := by
        intro record mem
        exact passed record (List.mem_cons_of_mem _ mem)
      rw [positionAt, if_neg notBefore, ih rest, lastRecord, lastRecord, List.getLastD_cons]

namespace LineInfoWriter

/-- Whether the pending item ends its chunk with a wrong line bit. -/
def tears (writer : LineInfoWriter) (offset : UInt32) : Prop :=
  ¬writer.hasRoom offset ∧
    ((parserLineInfoEncodeSmall (writer.itemValue offset)).headD 0 &&& 1).toUInt32 ≠
      lineBit writer.streamPrevLine writer.streamCurrentLine

/-- The open chunk: `closed` are the bytes of the chunks before it, and `stream` are those of
its items. -/
structure OpenChunk (header closed stream : List UInt8) (chunks : ℕ) (baseLine : UInt32)
    (writer : LineInfoWriter) : Prop where
  written : ∃ size, writer.lineInfo = some (header ++ closed ++
    parserLineInfoEncodeVlq (parserLineInfoDifferenceGet writer.blockPrevLine baseLine) ++
    size :: stream)
  blockSize : writer.blockSize = some ((header ++ closed ++
    parserLineInfoEncodeVlq (parserLineInfoDifferenceGet writer.blockPrevLine baseLine)).length)
  streamSize : stream.length = writer.streamSize
  withinLimit : writer.streamSize ≤ parserLineInfoStreamSizeLimit
  twoBytes : 2 * writer.streamValueCount ≤ writer.streamSize
  fewValues : writer.streamValueCount < streamValueCountMax.toNat
  noValues : writer.streamValueCount = 0 → writer.streamSize = 0
  fewChunks : chunks ≤ closed.length

/-- What look-ups find in what is written. -/
structure Answers (closed stream : List UInt8) (chunks : ℕ) (baseLine : UInt32)
    (first : LineRecord) (later : List LineRecord) (torn : UInt32 → Prop)
    (writer : LineInfoWriter) : Prop where
  reach : ∀ (fuel : ℕ) (tail : List UInt8) (offset : UInt32),
    writer.blockByteCodeOffset ≤ offset →
    findChunk (chunks + fuel) (closed ++ tail) 1 0 offset =
      findChunk fuel tail baseLine writer.blockByteCodeOffset offset
  answered : ∀ (fuel : ℕ) (tail : List UInt8) (offset : UInt32),
    offset < writer.blockByteCodeOffset →
    (searchChunks (chunks + fuel) (closed ++ tail) 1 0 offset =
      some (positionAt first later offset) ↔ ¬torn offset)
  scanned : ∀ (fuel : ℕ) (tail : List UInt8) (offset : UInt32),
    writer.blockByteCodeOffset ≤ offset → offset < writer.streamByteCodeOffset →
    scanStream (writer.streamValueCount + fuel) (stream ++ tail) writer.blockPrevLine
      columnDefault writer.blockByteCodeOffset offset = some (positionAt first later offset)
  passed : ∀ (fuel : ℕ) (tail : List UInt8) (offset : UInt32),
    writer.streamByteCodeOffset ≤ offset →
    scanStream (writer.streamValueCount + fuel) (stream ++ tail) writer.blockPrevLine
      columnDefault writer.blockByteCodeOffset offset =
      scanStream fuel tail writer.streamPrevLine writer.streamPrevColumn
        writer.streamByteCodeOffset offset

/-- The pending item is the last record. -/
structure Pending (first : LineRecord) (later : List LineRecord) (torn : UInt32 → Prop)
    (writer : LineInfoWriter) : Prop where
  currentLine : writer.streamCurrentLine = (lastRecord first later).line
  currentColumn : writer.streamCurrentColumn = (lastRecord first later).column
  prevLine : writer.prevLine = (lastRecord first later).line
  prevColumn : writer.prevColumn = (lastRecord first later).column
  lastOffset : writer.lastByteCodeOffset = (lastRecord first later).offset
  behind : writer.streamByteCodeOffset ≤ (lastRecord first later).offset
  passedAll : ∀ record ∈ later, record.offset ≤ writer.streamByteCodeOffset
  blockBehind : writer.blockByteCodeOffset ≤ writer.streamByteCodeOffset
  tornBehind : ∀ offset, torn offset → offset < writer.blockByteCodeOffset
  moves : 0 < writer.streamValueCount → writer.streamPrevLine = writer.streamCurrentLine →
    writer.streamCurrentColumn ≠ writer.streamPrevColumn

/-- The state of the run that writes the data behind `header`. -/
def Writes (header : List UInt8) (first : LineRecord) (later : List LineRecord)
    (torn : UInt32 → Prop) (writer : LineInfoWriter) : Prop :=
  Pending first later torn writer ∧ ∃ closed stream chunks baseLine,
    OpenChunk header closed stream chunks baseLine writer ∧
    Answers closed stream chunks baseLine first later torn writer

variable {header closed stream : List UInt8} {chunks : ℕ} {baseLine : UInt32}
  {torn : UInt32 → Prop} {writer next : LineInfoWriter}

/-- The first record opens the first chunk. -/
theorem writes_startChunk (header : List UInt8) (first : LineRecord) :
    Writes header first [] (fun _ => False)
      (((start (some header)).remember first).startChunk first) := by
  refine ⟨⟨rfl, rfl, rfl, rfl, rfl, ?_, by simp, ?_, by simp, ?_⟩, [], [], 0, 1, ?_, ?_⟩
  · simp [startChunk, remember, start, write, count]
  · simp [startChunk, remember, start, write, count]
  · simp [startChunk, remember, start, write, count]
  · refine ⟨⟨0, ?_⟩, ?_, ?_, ?_, ?_, ?_, ?_, ?_⟩ <;>
      simp [startChunk, remember, start, write, count, streamValueCountMax]
  · refine ⟨?_, ?_, ?_, ?_⟩ <;>
      simp [startChunk, remember, start, write, count]

/-- A record behind the pending one. -/
structure Follows (writer : LineInfoWriter) (record : LineRecord) : Prop where
  behind : writer.lastByteCodeOffset ≤ record.offset
  small : record.offset.toNat < 2 ^ 31
  kept : writer.skips record = false

theorem Pending.lt {torn : UInt32 → Prop} (pending : Pending first later torn writer)
    (follows : writer.Follows record) : writer.streamByteCodeOffset < record.offset := by
  have differs : record.offset ≠ writer.lastByteCodeOffset := by
    have kept := follows.kept
    simp only [skips, decide_eq_false_iff_not, not_or] at kept
    exact kept.1
  have behind := follows.behind
  have streamBehind := pending.behind
  rw [← pending.lastOffset] at streamBehind
  grind

/-- The pending item is in force up to the record that follows. -/
theorem Pending.positionAt_of_le {torn : UInt32 → Prop}
    (pending : Pending first later torn writer)
    (inside : writer.streamByteCodeOffset ≤ offset) :
    positionAt first later offset = (writer.streamCurrentLine, writer.streamCurrentColumn) := by
  rw [Cmsframe.positionAt_of_le, pending.currentLine, pending.currentColumn]
  intro record mem
  have passed := pending.passedAll record mem
  grind

/-- A scan of the pending item, were it written in full. -/
theorem scanStream_pending (writer : LineInfoWriter) {fuel : ℕ} {tail : List UInt8}
    (lt : writer.streamByteCodeOffset < record.offset) (small : record.offset.toNat < 2 ^ 31) :
    scanStream (fuel + 1) (writer.pendingItem record.offset ++ tail) writer.streamPrevLine
        writer.streamPrevColumn writer.streamByteCodeOffset offset =
      if record.offset ≤ offset then
        scanStream fuel tail writer.streamCurrentLine writer.streamCurrentColumn record.offset
          offset
      else some (writer.streamCurrentLine, writer.streamCurrentColumn) := by
  have gap : (record.offset - writer.streamByteCodeOffset).toNat < 2 ^ 31 :=
    offset_sub_lt (by grind) small
  have positive : record.offset - writer.streamByteCodeOffset ≠ 0 := by
    grind
  have ends : writer.streamByteCodeOffset + (record.offset - writer.streamByteCodeOffset) =
      record.offset := by
    grind
  have scan := @scanStream_item writer.streamPrevLine writer.streamPrevColumn
    writer.streamCurrentLine writer.streamCurrentColumn _ writer.streamByteCodeOffset offset fuel
    tail gap positive
  rw [ends] at scan
  rw [pendingItem, List.append_assoc]
  exact scan

/-- The records up to the one that follows. -/
theorem Pending.passed_append {torn : UInt32 → Prop} (pending : Pending first later torn writer)
    (follows : writer.Follows record) :
    ∀ other ∈ later ++ [record], other.offset ≤ record.offset := by
  have lt := pending.lt follows
  intro other mem
  rcases List.mem_append.mp mem with earlier | isLast
  · have passed := pending.passedAll other earlier
    grind
  · rw [List.mem_singleton.mp isLast]
    exact UInt32.le_refl _

theorem Pending.added (pending : Pending first later torn writer)
    (follows : writer.Follows record) :
    Pending first (later ++ [record]) torn ((writer.remember record).addItem record) := by
  have lt := pending.lt follows
  have last : lastRecord first (later ++ [record]) = record := lastRecord_append
  refine ⟨by rw [last]; rfl, by rw [last]; rfl, by rw [last]; rfl, by rw [last]; rfl,
    by rw [last]; rfl, by rw [last]; exact UInt32.le_refl _, pending.passed_append follows, ?_,
    pending.tornBehind, ?_⟩
  · have behind := pending.blockBehind
    change writer.blockByteCodeOffset ≤ record.offset
    grind
  · intro _ sameLine
    change record.column ≠ writer.streamCurrentColumn
    change writer.streamCurrentLine = record.line at sameLine
    have kept := follows.kept
    simp only [skips, decide_eq_false_iff_not, not_or, not_and, pending.prevLine,
      pending.prevColumn, ← pending.currentLine, ← pending.currentColumn] at kept
    exact kept.2 sameLine.symm

theorem OpenChunk.added (chunk : OpenChunk header closed stream chunks baseLine writer)
    (room : writer.hasRoom record.offset = true) :
    OpenChunk header closed (stream ++ writer.pendingItem record.offset) chunks baseLine
      ((writer.remember record).addItem record) := by
  obtain ⟨size, written⟩ := chunk.written
  have twoBytes := two_le_length_pendingItem writer record.offset
  have two := chunk.twoBytes
  simp only [hasRoom, decide_eq_true_eq] at room
  refine ⟨⟨size, ?_⟩, chunk.blockSize, ?_, room.2, ?_, room.1, ?_, chunk.fewChunks⟩
  · rw [addItem_lineInfo]
    change writer.lineInfo.map (· ++ writer.pendingItem record.offset) = _
    rw [written, Option.map_some, List.append_assoc _ (size :: stream), List.cons_append]
    rfl
  · rw [List.length_append, chunk.streamSize]
    rfl
  · change 2 * (writer.streamValueCount + 1) ≤
      writer.streamSize + (writer.pendingItem record.offset).length
    omega
  · intro none
    exact absurd none (Nat.succ_ne_zero _)

theorem Answers.added
    (answers : Answers closed stream chunks baseLine first later torn writer)
    (pending : Pending first later torn writer) (follows : writer.Follows record) :
    Answers closed (stream ++ writer.pendingItem record.offset) chunks baseLine first
      (later ++ [record]) torn ((writer.remember record).addItem record) := by
  have lt := pending.lt follows
  have blockBehind := pending.blockBehind
  constructor
  · exact answers.reach
  · intro fuel tail offset before
    change offset < writer.blockByteCodeOffset at before
    rw [positionAt_append_of_lt (by grind)]
    exact answers.answered fuel tail offset before
  · intro fuel tail offset inBlock before
    change offset < record.offset at before
    change scanStream (writer.streamValueCount + 1 + fuel) _ writer.blockPrevLine columnDefault
      writer.blockByteCodeOffset offset = _
    rw [positionAt_append_of_lt before, List.append_assoc, Nat.add_assoc,
      Nat.add_comm 1 fuel]
    by_cases earlier : offset < writer.streamByteCodeOffset
    · exact answers.scanned (fuel + 1) _ offset inBlock earlier
    · have inside : writer.streamByteCodeOffset ≤ offset := by
        grind
      rw [answers.passed (fuel + 1) _ offset inside, scanStream_pending writer lt follows.small,
        if_neg (by grind), pending.positionAt_of_le inside]
  · intro fuel tail offset after
    change record.offset ≤ offset at after
    change scanStream (writer.streamValueCount + 1 + fuel) _ writer.blockPrevLine columnDefault
      writer.blockByteCodeOffset offset =
      scanStream fuel tail writer.streamCurrentLine writer.streamCurrentColumn record.offset offset
    rw [List.append_assoc, Nat.add_assoc, Nat.add_comm 1 fuel,
      answers.passed (fuel + 1) _ offset (by grind), scanStream_pending writer lt follows.small,
      if_pos after]

/-- An item that leaves room for another. -/
theorem writes_addItem (writes : Writes header first later torn writer)
    (follows : writer.Follows record) (room : writer.hasRoom record.offset = true) :
    Writes header first (later ++ [record]) torn ((writer.remember record).addItem record) := by
  obtain ⟨pending, closed, stream, chunks, baseLine, chunk, answers⟩ := writes
  exact ⟨pending.added follows, closed, _, chunks, baseLine, chunk.added room,
    answers.added pending follows⟩

/-- Every item of the stream takes a byte at least. -/
theorem OpenChunk.values_le (chunk : OpenChunk header closed stream chunks baseLine writer) :
    writer.streamValueCount ≤ stream.length := by
  have two := chunk.twoBytes
  rw [chunk.streamSize]
  omega

/-- The size of a chunk that is closed fits into its byte and is not that of the last. -/
theorem OpenChunk.fits (chunk : OpenChunk header closed stream chunks baseLine writer)
    (full : writer.hasRoom offset = false) :
    streamSizeMin.toNat < writer.closedSize ∧ writer.closedSize - streamSizeMin.toNat ≤ 255 := by
  have limit : parserLineInfoStreamSizeLimit = 337 := rfl
  have least : streamSizeMin.toNat = 95 := rfl
  have most : streamValueCountMax.toNat = 48 := rfl
  have within := chunk.withinLimit
  have two := chunk.twoBytes
  have short := writer.length_lineColumnBuffer_le
  have nonempty := List.length_pos_iff.mpr writer.lineColumnBuffer_ne_nil
  have head := length_parserLineInfoEncodeSmall_le (writer.itemValue offset)
  have item : (writer.pendingItem offset).length =
      (parserLineInfoEncodeSmall (writer.itemValue offset)).length +
        writer.lineColumnBuffer.length := List.length_append
  simp only [hasRoom, decide_eq_false_iff_not, not_and] at full
  unfold closedSize
  by_cases fewer : writer.streamValueCount + 1 < streamValueCountMax.toNat
  · have long := full fewer
    omega
  · omega

theorem Pending.chunkClosed (pending : Pending first later torn writer)
    (follows : writer.Follows record) :
    Pending first (later ++ [record]) (fun offset => torn offset ∨
        (writer.tears record.offset ∧ writer.streamByteCodeOffset ≤ offset ∧
          offset < record.offset)) ((writer.remember record).nextChunk record) := by
  have lt := pending.lt follows
  have last : lastRecord first (later ++ [record]) = record := lastRecord_append
  refine ⟨by rw [last]; rfl, by rw [last]; rfl, by rw [last]; rfl, by rw [last]; rfl,
    by rw [last]; rfl, by rw [last]; exact UInt32.le_refl _, pending.passed_append follows,
    UInt32.le_refl _, ?_, ?_⟩
  · intro offset torn
    change offset < record.offset
    rcases torn with before | ⟨_, _, inside⟩
    · have behind := pending.blockBehind
      have before := pending.tornBehind offset before
      grind
    · exact inside
  · intro values
    exact absurd values (Nat.lt_irrefl 0)

/-- The bytes of a chunk that is closed. -/
def closedBytes (writer : LineInfoWriter) (baseLine : UInt32) (stream : List UInt8)
    (record : LineRecord) : List UInt8 :=
  parserLineInfoEncodeVlq (parserLineInfoDifferenceGet writer.blockPrevLine baseLine) ++
    UInt8.ofNat (writer.closedSize - streamSizeMin.toNat) ::
      ((stream ++ writer.closingItem record.offset) ++
        parserLineInfoEncodeVlq (record.offset - writer.blockByteCodeOffset))

theorem set_behind (front stream : List UInt8) (old new : UInt8) :
    (front ++ old :: stream).set front.length new = front ++ new :: stream := by
  induction front with
  | nil => rfl
  | cons first front ih => simp [ih]

theorem OpenChunk.chunkClosed (chunk : OpenChunk header closed stream chunks baseLine writer) :
    OpenChunk header (closed ++ closedBytes writer baseLine stream record) [] (chunks + 1)
      writer.blockPrevLine ((writer.remember record).nextChunk record) := by
  obtain ⟨size, written⟩ := chunk.written
  -- what is written when the next chunk starts
  have before : ((writer.lineInfo.map fun lineInfo => lineInfo.set (writer.blockSize.getD 0)
      (UInt8.ofNat (writer.closedSize - streamSizeMin.toNat))).map (· ++
        (writer.closingItem record.offset ++
          parserLineInfoEncodeVlq (record.offset - writer.blockByteCodeOffset)))) =
      some (header ++ (closed ++ closedBytes writer baseLine stream record)) := by
    rw [written, chunk.blockSize, Option.map_some, Option.map_some, Option.getD_some, set_behind]
    simp [closedBytes]
  refine ⟨⟨0, ?_⟩, ?_, rfl, Nat.zero_le _, Nat.zero_le _, ?_, fun _ => rfl, ?_⟩
  · change Option.map (· ++ (parserLineInfoEncodeVlq
      (parserLineInfoDifferenceGet record.line writer.blockPrevLine) ++ [0])) _ = _
    refine (congrArg _ before).trans ?_
    rw [Option.map_some, ← List.append_assoc]
    rfl
  · change some ((Option.getD _ []).length + _) = _
    refine (congrArg (fun lineInfo => some ((Option.getD lineInfo []).length + _)) before).trans ?_
    rw [Option.getD_some, ← List.length_append]
    rfl
  · exact Nat.succ_pos _
  · have fewer := chunk.fewChunks
    have nonempty : 0 < (closedBytes writer baseLine stream record).length := by
      simp [closedBytes]
    rw [List.length_append]
    omega

theorem ofNat_closedSize (fits : streamSizeMin.toNat < writer.closedSize ∧
    writer.closedSize - streamSizeMin.toNat ≤ 255) :
    (UInt8.ofNat (writer.closedSize - streamSizeMin.toNat)).toNat + streamSizeMin.toNat =
      writer.closedSize := by
  rw [UInt8.toNat_ofNat']
  omega

/-- The bit in the last item is one of the two. -/
theorem closingBit_lt (writer : LineInfoWriter) (offset : UInt32) :
    ((parserLineInfoEncodeSmall (writer.itemValue offset)).headD 0 &&& 1).toNat < 2 := by
  rw [UInt8.toNat_and]
  exact Nat.lt_succ_of_le Nat.and_le_right

/-- A scan of the last item of a chunk finds its position unless its bit is wrong. -/
theorem scanStream_closing {fuel : ℕ} {tail : List UInt8} {endOffset : UInt32}
    (full : writer.hasRoom record.offset = false)
    (moves : writer.streamPrevLine = writer.streamCurrentLine →
      writer.streamCurrentColumn ≠ writer.streamPrevColumn) :
    scanStream (fuel + 1) (writer.closingItem record.offset ++ tail) writer.streamPrevLine
        writer.streamPrevColumn endOffset offset =
      some (writer.streamCurrentLine, writer.streamCurrentColumn) ↔
      ¬writer.tears record.offset := by
  have isBit := closingBit_lt writer record.offset
  by_cases right : ((parserLineInfoEncodeSmall (writer.itemValue record.offset)).headD 0 &&&
      1).toUInt32 = lineBit writer.streamPrevLine writer.streamCurrentLine
  · apply iff_of_true
    · exact scanStream_last right
    · intro tears
      exact tears.2 right
  · apply iff_of_false
    · exact scanStream_wrong isBit right moves
    · intro whole
      exact whole ⟨by simp [full], right⟩

/-- A chunk is not closed with its first item. -/
theorem OpenChunk.values_pos (chunk : OpenChunk header closed stream chunks baseLine writer)
    (full : writer.hasRoom offset = false) : 0 < writer.streamValueCount := by
  by_contra none
  have noValues : writer.streamValueCount = 0 := by
    omega
  have noBytes := chunk.noValues noValues
  have limit : parserLineInfoStreamSizeLimit = 337 := rfl
  have most : streamValueCountMax.toNat = 48 := rfl
  have item := writer.length_pendingItem_le offset
  simp only [hasRoom, decide_eq_false_iff_not, not_and] at full
  have long := full (by omega)
  omega

theorem Answers.chunkClosed
    (answers : Answers closed stream chunks baseLine first later torn writer)
    (pending : Pending first later torn writer) (follows : writer.Follows record)
    (chunk : OpenChunk header closed stream chunks baseLine writer)
    (full : writer.hasRoom record.offset = false) :
    Answers (closed ++ closedBytes writer baseLine stream record) [] (chunks + 1)
      writer.blockPrevLine first (later ++ [record])
      (fun offset => torn offset ∨ (writer.tears record.offset ∧
        writer.streamByteCodeOffset ≤ offset ∧ offset < record.offset))
      ((writer.remember record).nextChunk record) := by
  have lt := pending.lt follows
  have blockBehind := pending.blockBehind
  have fits := chunk.fits full
  have sized : UInt8.ofNat (writer.closedSize - streamSizeMin.toNat) ≠ 0 := by
    intro isZero
    have size := ofNat_closedSize fits
    rw [isZero] at size
    simp at size
    omega
  have length : (stream ++ writer.closingItem record.offset).length =
      (UInt8.ofNat (writer.closedSize - streamSizeMin.toNat)).toNat + streamSizeMin.toNat := by
    rw [ofNat_closedSize fits, List.length_append, chunk.streamSize, closedSize, closingItem,
      List.length_cons]
    omega
  have search : ∀ (fuel : ℕ) (tail : List UInt8) (offset : UInt32),
      writer.blockByteCodeOffset ≤ offset →
      findChunk (chunks + (fuel + 1))
        (closed ++ closedBytes writer baseLine stream record ++ tail) 1 0 offset =
      if offset < record.offset then
        some (UInt8.ofNat (writer.closedSize - streamSizeMin.toNat) ::
          ((stream ++ writer.closingItem record.offset) ++ (parserLineInfoEncodeVlq
            (record.offset - writer.blockByteCodeOffset) ++ tail)), writer.blockPrevLine,
          writer.blockByteCodeOffset)
      else findChunk fuel tail writer.blockPrevLine record.offset offset := by
    intro fuel tail offset inside
    have found := @findChunk_sized _ _ tail fuel writer.blockPrevLine baseLine
      writer.blockByteCodeOffset record.offset offset sized length
    rw [← found, List.append_assoc, answers.reach (fuel + 1) _ offset inside]
    simp [closedBytes]
  constructor
  · intro fuel tail offset after
    change record.offset ≤ offset at after
    rw [Nat.add_assoc, Nat.add_comm 1 fuel, search fuel tail offset (by grind),
      if_neg (by grind)]
    rfl
  · intro fuel tail offset before
    change offset < record.offset at before
    rw [positionAt_append_of_lt before]
    by_cases earlier : offset < writer.blockByteCodeOffset
    · rw [List.append_assoc, Nat.add_assoc, answers.answered (1 + fuel) _ offset earlier]
      have notPending : ¬writer.streamByteCodeOffset ≤ offset := by
        grind
      simp [notPending]
    · have inside : writer.blockByteCodeOffset ≤ offset := by
        grind
      have notTorn : ¬torn offset := by
        intro isTorn
        exact earlier (pending.tornBehind offset isTorn)
      have moves := pending.moves (chunk.values_pos full)
      have values := chunk.values_le
      rw [searchChunks, Nat.add_assoc, Nat.add_comm 1 fuel, search fuel tail offset inside,
        if_pos before]
      simp only [Option.bind_eq_bind, Option.bind_some, List.drop_succ_cons, List.drop_zero,
        List.length_cons, List.length_append, List.append_assoc]
      by_cases inStream : offset < writer.streamByteCodeOffset
      · have notPending : ¬writer.streamByteCodeOffset ≤ offset := by
          grind
        obtain ⟨rest, enough⟩ := Nat.exists_eq_add_of_le values
        rw [enough, Nat.add_assoc, Nat.add_assoc, answers.scanned _ _ offset inside inStream]
        simp [notTorn, notPending]
      · have isPending : writer.streamByteCodeOffset ≤ offset := by
          grind
        obtain ⟨rest, enough⟩ := Nat.exists_eq_add_of_le values
        rw [enough, Nat.add_assoc, Nat.add_assoc, answers.passed _ _ offset isPending,
          ← Nat.add_assoc, pending.positionAt_of_le isPending, scanStream_closing full moves]
        simp [notTorn, isPending, before]
  · intro fuel tail offset inBlock before
    change record.offset ≤ offset at inBlock
    change offset < record.offset at before
    grind
  · intro fuel tail offset after
    change scanStream (0 + fuel) ([] ++ tail) record.line columnDefault record.offset offset =
      scanStream fuel tail record.line columnDefault record.offset offset
    rw [Nat.zero_add, List.nil_append]

/-- A record behind the pending one, whether it is skipped or not. -/
theorem writes_emitRecord (writes : Writes header first later torn writer)
    (follows : writer.Follows record) :
    ∃ next, writer.emitRecord record = some next ∧
      Writes header first (later ++ [record]) (fun offset => torn offset ∨
        (writer.tears record.offset ∧ writer.streamByteCodeOffset ≤ offset ∧
          offset < record.offset)) next := by
  obtain ⟨pending, closed, stream, chunks, baseLine, chunk, answers⟩ := id writes
  have emitted := emitRecord_of_open follows.kept chunk.blockSize
  by_cases room : writer.hasRoom record.offset = true
  · refine ⟨(writer.remember record).addItem record, by rw [emitted, if_pos room], ?_⟩
    have whole : ¬writer.tears record.offset := by
      intro tears
      exact tears.1 room
    simpa [whole] using writes_addItem writes follows room
  · have full : writer.hasRoom record.offset = false := by
      simpa using room
    refine ⟨(writer.remember record).nextChunk record, ?_, pending.chunkClosed follows, _, [], _, _,
      chunk.chunkClosed, answers.chunkClosed pending follows chunk full⟩
    rw [emitted, if_neg room]
    exact if_pos (chunk.fits full)

/-- What is written in the end answers every look-up outside the torn stretches. -/
theorem writes_finish (writes : Writes header first later torn writer) :
    ∃ body, writer.finish.lineInfo = some (header ++ body) ∧
      ∀ offset, searchChunks body.length body 1 0 offset =
        some (positionAt first later offset) ↔ ¬torn offset := by
  obtain ⟨pending, closed, stream, chunks, baseLine, chunk, answers⟩ := writes
  obtain ⟨size, written⟩ := chunk.written
  have fewer := chunk.fewChunks
  have values := chunk.values_le
  have right : (if writer.streamPrevLine ≠ writer.streamCurrentLine then (1 : UInt8)
      else 0).toUInt32 = lineBit writer.streamPrevLine writer.streamCurrentLine := by
    unfold lineBit
    split_ifs <;> rfl
  refine ⟨closed ++ (parserLineInfoEncodeVlq
    (parserLineInfoDifferenceGet writer.blockPrevLine baseLine) ++ 0 :: (stream ++
      (if writer.streamPrevLine ≠ writer.streamCurrentLine then (1 : UInt8) else 0) ::
        writer.lineColumnBuffer)), ?_, ?_⟩
  · change (writer.lineInfo.map fun lineInfo => lineInfo.set (writer.blockSize.getD 0) 0).map
      (· ++ _ :: writer.lineColumnBuffer) = _
    rw [written, chunk.blockSize, Option.map_some, Option.map_some, Option.getD_some, set_behind]
    simp
  · generalize (if writer.streamPrevLine ≠ writer.streamCurrentLine then (1 : UInt8) else 0) =
      bit at right
    intro offset
    obtain ⟨fuel, enough⟩ : ∃ fuel, (closed ++ (parserLineInfoEncodeVlq
        (parserLineInfoDifferenceGet writer.blockPrevLine baseLine) ++ 0 :: (stream ++
          bit :: writer.lineColumnBuffer))).length = chunks + (fuel + 1) := by
      refine ⟨closed.length - chunks + (parserLineInfoEncodeVlq
        (parserLineInfoDifferenceGet writer.blockPrevLine baseLine)).length +
        (stream ++ bit :: writer.lineColumnBuffer).length, ?_⟩
      simp only [List.length_append, List.length_cons]
      omega
    rw [enough]
    by_cases earlier : offset < writer.blockByteCodeOffset
    · exact answers.answered (fuel + 1) _ offset earlier
    · have inside : writer.blockByteCodeOffset ≤ offset := by
        grind
      have notTorn : ¬torn offset := by
        intro isTorn
        exact earlier (pending.tornBehind offset isTorn)
      obtain ⟨rest, count⟩ := Nat.exists_eq_add_of_le values
      rw [searchChunks, answers.reach (fuel + 1) _ offset inside, findChunk_last]
      simp only [Option.bind_eq_bind, Option.bind_some, List.drop_succ_cons, List.drop_zero,
        List.length_cons, List.length_append, count, Nat.add_assoc]
      by_cases inStream : offset < writer.streamByteCodeOffset
      · rw [answers.scanned _ _ offset inside inStream]
        simp [notTorn]
      · have isPending : writer.streamByteCodeOffset ≤ offset := by
          grind
        have last := @scanStream_last writer.streamPrevLine writer.streamPrevColumn
          writer.streamCurrentLine writer.streamCurrentColumn writer.streamByteCodeOffset offset
          (rest + (writer.lineColumnBuffer.length + 1)) [] bit right
        rw [answers.passed _ _ offset isPending, pending.positionAt_of_le isPending]
        rw [List.append_nil] at last
        exact iff_of_true last notTorn

end LineInfoWriter

end Cmsframe
