import Cmsframe.LineInfo.Recorder

/-!
# Generating the line information

`parser_line_info_generate` turns the recorded positions into the data that is kept with the
byte code. Its loop runs twice: the first run computes the size of the data, the second one
writes it. The positions are cut into chunks, so that a look-up can skip most of them. The
offsets of the records count the byte code before unused bytes were removed from its pages;
how many bytes of a page are left is in the page itself.
-/

namespace Cmsframe

/-- `PARSER_CBC_STREAM_PAGE_SIZE` -/
def parserCbcStreamPageSize (target : Target) : ℕ := 64 - target.sizeofPointer

/-- `PARSER_LINE_INFO_STREAM_SIZE_LIMIT` -/
def parserLineInfoStreamSizeLimit : ℕ := streamSizeMin.toNat + 255 - (2 * 6 + 1)

/-! ## Reading the records -/

/-- The variables of a run that read the recorded numbers and follow the byte code. -/
structure RecordIterator where
  pages : List (List UInt8)
  byteCodePages : List (List UInt8)
  byteCodePageOffset : ℕ
  byteCodeBase : UInt32
  line : UInt32
  column : UInt32

/-- The loop that moves over the byte code pages in front of an offset. -/
def skipByteCodePages (target : Target) :
    List (List UInt8) → ℕ → UInt32 → Option (List (List UInt8) × ℕ × UInt32)
  | [], offset, base =>
    if offset ≥ parserCbcStreamPageSize target then none else some ([], offset, base)
  | page :: pages, offset, base =>
    if offset ≥ parserCbcStreamPageSize target then do
      let relativeOffset ← page[parserCbcStreamPageSize target - 1]?
      skipByteCodePages target pages (offset - parserCbcStreamPageSize target)
        (base + (relativeOffset &&& 0x7f).toUInt32)
    else some (page :: pages, offset, base)

/-- How many bytes of the byte code are left in front of an offset in a page. -/
def byteCodeOffset (byteCodePages : List (List UInt8)) (offset : ℕ) (base : UInt32) :
    Option UInt32 :=
  if offset > 0 then do
    let page ← byteCodePages.head?
    let relativeOffset ← page[offset - 1]?
    some (base + (relativeOffset &&& 0x7f).toUInt32)
  else some base

/-- The beginning of the loop: the next record, at its offset in the final byte code. -/
def nextRecord (target : Target) (iterator : RecordIterator) :
    Option (LineRecord × RecordIterator) := do
  let (value, pages) ← parserLineInfoIteratorGet iterator.pages
  let offset := iterator.byteCodePageOffset + (value >>> 1).toNat
  let (line, pages) ←
    if value &&& 1 ≠ 0 then do
      let (value, pages) ← parserLineInfoIteratorGet pages
      -- JERRY_ASSERT: the line has changed
      if value = 1 then none
      else some (ecmaLineInfoDifferenceUpdate iterator.line value, pages)
    else some (iterator.line, pages)
  let (value, pages) ← parserLineInfoIteratorGet pages
  let column := ecmaLineInfoDifferenceUpdate iterator.column value
  let (byteCodePages, offset, base) ← skipByteCodePages target iterator.byteCodePages offset
    iterator.byteCodeBase
  let recordOffset ← byteCodeOffset byteCodePages offset base
  some (⟨recordOffset, line, column⟩, ⟨pages, byteCodePages, offset, base, line, column⟩)

/-! ## Writing the chunks -/

/-- The variables of a run that write the data: `lineInfo` is what the second run has
written, and `none` in the first run. -/
structure LineInfoWriter where
  lineInfo : Option (List UInt8)
  totalLength : ℕ
  lastByteCodeOffset : UInt32
  prevLine : UInt32
  prevColumn : UInt32
  /-- Where the size of the open chunk will be written. -/
  blockSize : Option ℕ
  blockByteCodeOffset : UInt32
  blockPrevLine : UInt32
  streamByteCodeOffset : UInt32
  streamCurrentLine : UInt32
  streamCurrentColumn : UInt32
  streamPrevLine : UInt32
  streamPrevColumn : UInt32
  streamSize : ℕ
  streamValueCount : ℕ

namespace LineInfoWriter

/-- The variables at the beginning of a run. -/
def start (lineInfo : Option (List UInt8)) : LineInfoWriter where
  lineInfo := lineInfo
  totalLength := 0
  lastByteCodeOffset := 0xffffffff
  prevLine := 0
  prevColumn := 0
  blockSize := none
  blockByteCodeOffset := 0
  blockPrevLine := 1
  streamByteCodeOffset := 0
  streamCurrentLine := 1
  streamCurrentColumn := columnDefault
  streamPrevLine := 1
  streamPrevColumn := columnDefault
  streamSize := 0
  streamValueCount := 0

/-- Bytes that only the second run writes. -/
def write (bytes : List UInt8) (writer : LineInfoWriter) : LineInfoWriter :=
  { writer with lineInfo := writer.lineInfo.map (· ++ bytes) }

/-- A length that only the first run adds up. -/
def count (length : ℕ) (writer : LineInfoWriter) : LineInfoWriter :=
  { writer with
    totalLength := if writer.lineInfo.isNone then writer.totalLength + length
      else writer.totalLength }

/-- The size of the open chunk, which only the second run writes. -/
def writeBlockSize (size : UInt8) (writer : LineInfoWriter) : LineInfoWriter :=
  { writer with
    lineInfo := writer.lineInfo.map fun lineInfo =>
      lineInfo.set (writer.blockSize.getD 0) size }

/-- The end offset of the pending item and whether a line follows. -/
def itemValue (writer : LineInfoWriter) (offset : UInt32) : UInt32 :=
  ((offset - writer.streamByteCodeOffset) <<< 1) |||
    (if writer.streamPrevLine ≠ writer.streamCurrentLine then 1 else 0)

/-- The line and the column of the pending item. -/
def lineColumnBuffer (writer : LineInfoWriter) : List UInt8 :=
  if writer.streamPrevLine ≠ writer.streamCurrentLine then
    parserLineInfoEncodeSmall
        (parserLineInfoDifferenceGet writer.streamCurrentLine writer.streamPrevLine) ++
      parserLineInfoEncodeSmall
        (parserLineInfoDifferenceGet writer.streamCurrentColumn columnDefault)
  else
    parserLineInfoEncodeSmall
      (parserLineInfoDifferenceGet writer.streamCurrentColumn writer.streamPrevColumn)

def pendingItem (writer : LineInfoWriter) (offset : UInt32) : List UInt8 :=
  parserLineInfoEncodeSmall (writer.itemValue offset) ++ writer.lineColumnBuffer

/-- Whether the pending item leaves room for another one in its chunk. -/
def hasRoom (writer : LineInfoWriter) (offset : UInt32) : Bool :=
  writer.streamValueCount + 1 < streamValueCountMax.toNat ∧
    writer.streamSize + (writer.pendingItem offset).length ≤ parserLineInfoStreamSizeLimit

/-- The pending item becomes the record that was just read. -/
def advance (writer : LineInfoWriter) (record : LineRecord) : LineInfoWriter :=
  { writer with
    streamByteCodeOffset := record.offset
    streamPrevLine := writer.streamCurrentLine
    streamPrevColumn := writer.streamCurrentColumn
    streamCurrentLine := record.line
    streamCurrentColumn := record.column
    streamValueCount := writer.streamValueCount + 1 }

/-- Start a new chunk. -/
def startChunk (writer : LineInfoWriter) (record : LineRecord) : LineInfoWriter :=
  let line := parserLineInfoEncodeVlq
    (parserLineInfoDifferenceGet record.line writer.blockPrevLine)
  let written := (writer.write (line ++ [0])).count (line.length + 1)
  { written with
    blockSize := some ((writer.lineInfo.getD []).length + line.length)
    blockPrevLine := record.line
    streamCurrentLine := record.line
    streamCurrentColumn := record.column
    streamPrevLine := record.line
    streamPrevColumn := columnDefault
    streamSize := 0
    streamValueCount := 0 }

/-- The size of the open chunk with the pending item, whose end offset takes one byte. -/
def closedSize (writer : LineInfoWriter) : ℕ :=
  writer.streamSize + 1 + writer.lineColumnBuffer.length

/-- The last item of a chunk has no end offset. The bit of the line is that of the first byte
of the encoding. -/
def closingItem (writer : LineInfoWriter) (offset : UInt32) : List UInt8 :=
  ((parserLineInfoEncodeSmall (writer.itemValue offset)).headD 0 &&& 1) :: writer.lineColumnBuffer

/-- Finalize the current chunk, and start a new one. -/
def nextChunk (writer : LineInfoWriter) (record : LineRecord) : LineInfoWriter :=
  let byteCodeSize := parserLineInfoEncodeVlq (record.offset - writer.blockByteCodeOffset)
  let written := (((writer.advance record).writeBlockSize
    (UInt8.ofNat (writer.closedSize - streamSizeMin.toNat))).write
    (writer.closingItem record.offset ++ byteCodeSize)).count
    (writer.closedSize + byteCodeSize.length)
  { written with blockByteCodeOffset := record.offset }.startChunk record

def closeChunk (writer : LineInfoWriter) (record : LineRecord) : Option LineInfoWriter :=
  -- JERRY_ASSERT: the size fits into the byte it is written to, and is not that of the last
  if streamSizeMin.toNat < writer.closedSize ∧ writer.closedSize - streamSizeMin.toNat ≤ 255 then
    some (writer.nextChunk record)
  else none

/-- Whether a record does not change the position, or lost its byte code. -/
def skips (writer : LineInfoWriter) (record : LineRecord) : Bool :=
  record.offset = writer.lastByteCodeOffset ∨
    (record.line = writer.prevLine ∧ record.column = writer.prevColumn)

/-- What the next records are compared with. -/
def remember (writer : LineInfoWriter) (record : LineRecord) : LineInfoWriter :=
  { writer with
    prevLine := record.line
    prevColumn := record.column
    lastByteCodeOffset := record.offset }

/-- The item that the record puts an end to is written to the open chunk. -/
def addItem (writer : LineInfoWriter) (record : LineRecord) : LineInfoWriter :=
  let item := writer.pendingItem record.offset
  { writer.advance record with streamSize := writer.streamSize + item.length }.write item

/-- The rest of the loop, on the record that was read. -/
def emitRecord (writer : LineInfoWriter) (record : LineRecord) : Option LineInfoWriter :=
  if writer.skips record then some writer
  else
    let writer := writer.remember record
    match writer.blockSize with
    | none => some (writer.startChunk record)
    | some _ =>
      if writer.hasRoom record.offset then some (writer.addItem record)
      else writer.closeChunk record

/-- Finalize the last stream. -/
def finish (writer : LineInfoWriter) : LineInfoWriter :=
  let hasLine : UInt8 := if writer.streamPrevLine ≠ writer.streamCurrentLine then 1 else 0
  ((writer.writeBlockSize 0).write (hasLine :: writer.lineColumnBuffer)).count
    (writer.streamSize + 1 + writer.lineColumnBuffer.length)

variable {writer : LineInfoWriter} {record : LineRecord}

theorem totalLength_count (measures : writer.lineInfo = none) (length : ℕ) :
    (writer.count length).totalLength = writer.totalLength + length := by
  rw [count, measures]
  rfl

theorem emitRecord_of_closed (kept : writer.skips record = false)
    (closed : writer.blockSize = none) :
    writer.emitRecord record = some ((writer.remember record).startChunk record) := by
  have closedAfter : (writer.remember record).blockSize = none := closed
  simp [emitRecord, kept, closedAfter]

theorem emitRecord_of_open {block : ℕ} (kept : writer.skips record = false)
    (opened : writer.blockSize = some block) :
    writer.emitRecord record =
      if writer.hasRoom record.offset then some ((writer.remember record).addItem record)
      else (writer.remember record).closeChunk record := by
  have openedAfter : (writer.remember record).blockSize = some block := opened
  have room : (writer.remember record).hasRoom record.offset = writer.hasRoom record.offset := rfl
  simp [emitRecord, kept, openedAfter, room]

@[simp] theorem addItem_lineInfo : (writer.addItem record).lineInfo =
    writer.lineInfo.map (· ++ writer.pendingItem record.offset) := rfl

theorem lineColumnBuffer_ne_nil (writer : LineInfoWriter) : writer.lineColumnBuffer ≠ [] := by
  unfold lineColumnBuffer
  split_ifs <;> simp [parserLineInfoEncodeSmall_ne_nil]

theorem length_lineColumnBuffer_le (writer : LineInfoWriter) :
    writer.lineColumnBuffer.length ≤ 12 := by
  have line := length_parserLineInfoEncodeSmall_le
    (parserLineInfoDifferenceGet writer.streamCurrentLine writer.streamPrevLine)
  have column := length_parserLineInfoEncodeSmall_le
    (parserLineInfoDifferenceGet writer.streamCurrentColumn columnDefault)
  have sameLine := length_parserLineInfoEncodeSmall_le
    (parserLineInfoDifferenceGet writer.streamCurrentColumn writer.streamPrevColumn)
  unfold lineColumnBuffer
  split_ifs
  · rw [List.length_append]
    omega
  · omega

theorem length_pendingItem_le (writer : LineInfoWriter) (offset : UInt32) :
    (writer.pendingItem offset).length ≤ 18 := by
  have head := length_parserLineInfoEncodeSmall_le (writer.itemValue offset)
  have position := writer.length_lineColumnBuffer_le
  rw [pendingItem, List.length_append]
  omega

theorem two_le_length_pendingItem (writer : LineInfoWriter) (offset : UInt32) :
    2 ≤ (writer.pendingItem offset).length := by
  have head := List.length_pos_iff.mpr
    (parserLineInfoEncodeSmall_ne_nil (writer.itemValue offset))
  have position := List.length_pos_iff.mpr writer.lineColumnBuffer_ne_nil
  rw [pendingItem, List.length_append]
  omega

end LineInfoWriter

/-- The loop over the records; every record takes a byte at least. -/
def generateLoop (target : Target) :
    ℕ → RecordIterator → LineInfoWriter → Option LineInfoWriter
  | 0, _, _ => none
  | fuel + 1, iterator, writer => do
    let (record, iterator) ← nextRecord target iterator
    let writer ← writer.emitRecord record
    if iterator.pages = [] then some writer else generateLoop target fuel iterator writer

/-- One of the two runs. -/
def generateRun (target : Target) (pages byteCodePages : List (List UInt8))
    (lineInfo : Option (List UInt8)) : Option LineInfoWriter := do
  let writer ← generateLoop target pages.flatten.length ⟨pages, byteCodePages, 0, 0, 1, 1⟩
    (.start lineInfo)
  -- the size of the last chunk is written through the pointer to it
  let _ ← writer.blockSize
  some writer.finish

/-- `parser_line_info_generate`: the bytes it writes, and the size of the block that it
allocates for them. -/
def parserLineInfoGenerate (target : Target) (pages byteCodePages : List (List UInt8)) :
    Option (List UInt8 × UInt32) := do
  let measured ← generateRun target pages byteCodePages none
  let totalLength := parserLineInfoEncodeVlq (UInt32.ofNat measured.totalLength)
  let written ← generateRun target pages byteCodePages (some totalLength)
  let lineInfo ← written.lineInfo
  -- the assertion that the second run has written what the first run has counted
  if totalLength.length + measured.totalLength = lineInfo.length then
    some (lineInfo, UInt32.ofNat (measured.totalLength + totalLength.length))
  else none

end Cmsframe
