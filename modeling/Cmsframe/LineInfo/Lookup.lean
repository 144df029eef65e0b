import Cmsframe.LineInfo.Generate

/-!
# Looking up a position

`ecma_line_info_get` finds the chunk that an offset of the byte code belongs to by the sizes
of the chunks, and the position by a scan of that chunk.
-/

namespace Cmsframe

/-- The loop over the chunks: the chunk of an offset from its size on, with the line it
starts at and the offset. -/
def findChunk : ℕ → List UInt8 → UInt32 → UInt32 → UInt32 →
    Option (List UInt8 × UInt32 × UInt32)
  | 0, _, _, _, _ => none
  | fuel + 1, lineInfo, line, endOffset, offset => do
    let (value, lineInfo) ← ecmaLineInfoDecodeVlq lineInfo
    let line := ecmaLineInfoDifferenceUpdate line value
    let size ← lineInfo.head?
    if size = 0 then some (lineInfo, line, endOffset)
    else do
      let (byteCodeSize, next) ←
        ecmaLineInfoDecodeVlq (lineInfo.drop (size.toNat + (streamSizeMin.toNat + 1)))
      let nextEndOffset := endOffset + byteCodeSize
      if offset < nextEndOffset then some (lineInfo, line, endOffset)
      else findChunk fuel next line nextEndOffset offset

/-- The line of an item, if it has one. -/
def readLine (endOffsetIncrease : UInt32) (lineInfo : List UInt8) (line column : UInt32) :
    Option (UInt32 × UInt32 × List UInt8) :=
  if endOffsetIncrease &&& 1 ≠ 0 then do
    let (value, lineInfo) ← ecmaLineInfoDecodeSmall lineInfo
    some (ecmaLineInfoDifferenceUpdate line value, columnDefault, lineInfo)
  else some (line, column, lineInfo)

/-- The loop over the items of a chunk. -/
def scanStream : ℕ → List UInt8 → UInt32 → UInt32 → UInt32 → UInt32 → Option (UInt32 × UInt32)
  | 0, _, _, _, _, _ => none
  | fuel + 1, lineInfo, line, column, endOffset, offset => do
    let (endOffsetIncrease, lineInfo) ← ecmaLineInfoDecodeSmall lineInfo
    let (line, column, lineInfo) ← readLine endOffsetIncrease lineInfo line column
    let increase := endOffsetIncrease >>> 1
    let (value, lineInfo) ← ecmaLineInfoDecodeSmall lineInfo
    let column := ecmaLineInfoDifferenceUpdate column value
    if increase ≠ 0 ∧ endOffset + increase ≤ offset then
      scanStream fuel lineInfo line column (endOffset + increase) offset
    else some (line, column)

/-- Both loops, behind the length of the data. -/
def searchChunks (fuel : ℕ) (lineInfo : List UInt8) (line endOffset offset : UInt32) :
    Option (UInt32 × UInt32) := do
  let (chunk, line, endOffset) ← findChunk fuel lineInfo line endOffset offset
  scanStream chunk.length (chunk.drop 1) line columnDefault endOffset offset

/-- `ecma_line_info_get`: the line and the column. -/
def ecmaLineInfoGet (lineInfo : List UInt8) (offset : UInt32) : Option (UInt32 × UInt32) := do
  let (_, lineInfo) ← ecmaLineInfoDecodeVlq lineInfo
  searchChunks lineInfo.length lineInfo 1 0 offset

/-- `ecma_line_info_free`: the size of the block that it releases. -/
def ecmaLineInfoFree (lineInfo : List UInt8) : Option UInt32 := do
  let (totalLength, rest) ← ecmaLineInfoDecodeVlq lineInfo
  some (totalLength + UInt32.ofNat (lineInfo.length - rest.length))

/-! ## Chunks -/

/-- A chunk with a size: it has the offset, or the search goes on behind it. -/
theorem findChunk_sized {size : UInt8} {stream tail : List UInt8}
    {fuel : ℕ} {line baseLine endOffset nextEndOffset offset : UInt32} (sized : size ≠ 0)
    (length : stream.length = size.toNat + streamSizeMin.toNat) :
    findChunk (fuel + 1) (parserLineInfoEncodeVlq (parserLineInfoDifferenceGet line baseLine) ++
        size :: (stream ++ (parserLineInfoEncodeVlq (nextEndOffset - endOffset) ++ tail)))
        baseLine endOffset offset =
      if offset < nextEndOffset then
        some (size :: (stream ++
          (parserLineInfoEncodeVlq (nextEndOffset - endOffset) ++ tail)), line, endOffset)
      else findChunk fuel tail line nextEndOffset offset := by
  have behind : (size :: (stream ++ (parserLineInfoEncodeVlq (nextEndOffset - endOffset) ++
      tail))).drop (size.toNat + (streamSizeMin.toNat + 1)) =
      parserLineInfoEncodeVlq (nextEndOffset - endOffset) ++ tail := by
    rw [← Nat.add_assoc, ← length, List.drop_succ_cons, List.drop_left]
  have ends : endOffset + (nextEndOffset - endOffset) = nextEndOffset := by
    grind
  simp [findChunk, ecmaLineInfoDecodeVlq_encode, sized, behind, ends]

/-- The last chunk has every other offset. -/
theorem findChunk_last {tail : List UInt8} {fuel : ℕ} {line baseLine endOffset offset : UInt32} :
    findChunk (fuel + 1) (parserLineInfoEncodeVlq (parserLineInfoDifferenceGet line baseLine) ++
        0 :: tail) baseLine endOffset offset = some (0 :: tail, line, endOffset) := by
  simp [findChunk, ecmaLineInfoDecodeVlq_encode]

/-! ## Items -/

/-- The line and the column of an item, as differences to the item before. -/
def positionBytes (prevLine prevColumn line column : UInt32) : List UInt8 :=
  if prevLine ≠ line then
    parserLineInfoEncodeSmall (parserLineInfoDifferenceGet line prevLine) ++
      parserLineInfoEncodeSmall (parserLineInfoDifferenceGet column columnDefault)
  else parserLineInfoEncodeSmall (parserLineInfoDifferenceGet column prevColumn)

/-- Whether an item has a line. -/
def lineBit (prevLine line : UInt32) : UInt32 := if prevLine ≠ line then 1 else 0

variable {prevLine prevColumn line column increase endOffset offset : UInt32} {fuel : ℕ}
  {rest : List UInt8}

theorem lineBit_lt (prevLine line : UInt32) : (lineBit prevLine line).toNat < 2 := by
  unfold lineBit
  split_ifs <;> simp

/-- A scan over an item whose end offset is known by its value. -/
theorem scanStream_value {value : UInt32} {head : List UInt8}
    (decoded : ecmaLineInfoDecodeSmall (head ++ (positionBytes prevLine prevColumn line column ++
      rest)) = some (value, positionBytes prevLine prevColumn line column ++ rest))
    (hasLine : value &&& 1 = lineBit prevLine line) :
    scanStream (fuel + 1) (head ++ (positionBytes prevLine prevColumn line column ++ rest))
        prevLine prevColumn endOffset offset =
      if value >>> 1 ≠ 0 ∧ endOffset + (value >>> 1) ≤ offset then
        scanStream fuel rest line column (endOffset + (value >>> 1)) offset
      else some (line, column) := by
  by_cases sameLine : prevLine = line
  · subst sameLine
    simp only [lineBit, ne_eq, not_true_eq_false, if_false] at hasLine
    simp only [positionBytes, ne_eq, not_true_eq_false, if_false] at decoded ⊢
    simp [scanStream, decoded, readLine, hasLine, ecmaLineInfoDecodeSmall_encode,
      ecmaLineInfoDifferenceUpdate_get]
  · simp only [lineBit, ne_eq, sameLine, not_false_eq_true, if_true] at hasLine
    simp only [positionBytes, ne_eq, sameLine, not_false_eq_true, if_true,
      List.append_assoc] at decoded ⊢
    simp [scanStream, decoded, readLine, hasLine, ecmaLineInfoDecodeSmall_encode,
      ecmaLineInfoDifferenceUpdate_get]

/-- An item of a chunk: the scan goes on behind its end, or stops at its position. -/
theorem scanStream_item (small : increase.toNat < 2 ^ 31) (positive : increase ≠ 0) :
    scanStream (fuel + 1) (parserLineInfoEncodeSmall
          ((increase <<< 1) ||| lineBit prevLine line) ++
        (positionBytes prevLine prevColumn line column ++ rest))
        prevLine prevColumn endOffset offset =
      if endOffset + increase ≤ offset then
        scanStream fuel rest line column (endOffset + increase) offset
      else some (line, column) := by
  have isBit := lineBit_lt prevLine line
  rw [scanStream_value (ecmaLineInfoDecodeSmall_encode _ _) (shiftLeft_or_bit_and small isBit),
    shiftLeft_or_bit_shiftRight small isBit]
  simp [positive]

theorem decodeSmall_bit {bit : UInt8} (isBit : bit.toNat < 2) (rest : List UInt8) :
    ecmaLineInfoDecodeSmall (bit :: rest) = some (bit.toUInt32, rest) := by
  have small : bit.toUInt32 < encodeTwoByteMin := by
    rw [UInt32.lt_iff_toNat_lt, UInt8.toNat_toUInt32]
    change bit.toNat < 254
    omega
  simp [ecmaLineInfoDecodeSmall, small]

/-- The last item of a chunk, with the right bit: it has no end. -/
theorem scanStream_last {bit : UInt8} (right : bit.toUInt32 = lineBit prevLine line) :
    scanStream (fuel + 1) (bit :: (positionBytes prevLine prevColumn line column ++ rest))
        prevLine prevColumn endOffset offset = some (line, column) := by
  have isBit : bit.toNat < 2 := by
    rw [← UInt8.toNat_toUInt32, right]
    exact lineBit_lt prevLine line
  have masked : bit.toUInt32 &&& 1 = bit.toUInt32 := by
    rw [right]
    unfold lineBit
    split_ifs <;> rfl
  have shifted : bit.toUInt32 >>> 1 = 0 := by
    rw [right]
    unfold lineBit
    split_ifs <;> rfl
  have scan := @scanStream_value prevLine prevColumn line column endOffset offset fuel rest _ [bit]
    (decodeSmall_bit isBit _) (masked.trans right)
  rw [List.singleton_append] at scan
  rw [scan, shifted]
  simp

/-- With the wrong bit the last item is never read as its position: a line is overlooked, or
the difference of the columns is taken for a line. -/
theorem scanStream_wrong {bit : UInt8} (isBit : bit.toNat < 2)
    (wrong : bit.toUInt32 ≠ lineBit prevLine line)
    (moves : prevLine = line → column ≠ prevColumn) :
    scanStream (fuel + 1) (bit :: (positionBytes prevLine prevColumn line column ++ rest))
        prevLine prevColumn endOffset offset ≠ some (line, column) := by
  by_cases sameLine : prevLine = line
  · subst sameLine
    have isOne : bit = 1 := by
      simp only [lineBit, ne_eq, not_true_eq_false, if_false] at wrong
      rw [← UInt8.toNat_inj]
      have positive : bit.toNat ≠ 0 := by
        intro isZero
        apply wrong
        rw [← UInt32.toNat_inj, UInt8.toNat_toUInt32, isZero]
        rfl
      simp
      omega
    subst isOne
    have moved := ecmaLineInfoDifferenceUpdate_get_ne prevLine (moves rfl)
    have decoded := decodeSmall_bit isBit (positionBytes prevLine prevColumn prevLine column ++ rest)
    simp only [positionBytes, ne_eq, not_true_eq_false, if_false] at decoded ⊢
    have noIncrease : (1 : UInt32) >>> 1 = 0 := rfl
    cases next : ecmaLineInfoDecodeSmall rest <;>
      simp [scanStream, decoded, readLine, ecmaLineInfoDecodeSmall_encode, next, moved, noIncrease]
  · have isZero : bit = 0 := by
      simp only [lineBit, ne_eq, sameLine, not_false_eq_true, if_true] at wrong
      rw [← UInt8.toNat_inj]
      have notOne : bit.toNat ≠ 1 := by
        intro isOne
        apply wrong
        rw [← UInt32.toNat_inj, UInt8.toNat_toUInt32, isOne]
        rfl
      simp
      omega
    subst isZero
    have decoded := decodeSmall_bit isBit (positionBytes prevLine prevColumn line column ++ rest)
    simp only [positionBytes, ne_eq, sameLine, not_false_eq_true, if_true,
      List.append_assoc] at decoded ⊢
    simp [scanStream, decoded, readLine, ecmaLineInfoDecodeSmall_encode, sameLine]

end Cmsframe
