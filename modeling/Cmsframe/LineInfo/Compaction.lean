import Mathlib.Data.List.Induction
import Cmsframe.LineInfo.Records

/-!
# Byte code pages after the removal of bytes

`parser_post_processing` copies the byte code from its pages and drops bytes that are not
needed. `PARSER_NEXT_BYTE_UPDATE` leaves in the place of every byte how many bytes of its page
were copied so far. Which bytes are dropped and which are marked as branches does not matter
here.
-/

namespace Cmsframe

/-- What happens to a byte of the byte code. -/
structure CopiedByte where
  kept : Bool
  marked : Bool

/-- The pages, with the last one apart, and `real_offset`. -/
structure CompactedPages where
  full : List (List UInt8)
  last : List UInt8
  realOffset : UInt8

def CompactedPages.all (pages : CompactedPages) : List (List UInt8) := pages.full ++ [pages.last]

/-- What is left in the place of a byte. -/
def relativeOffset (realOffset : UInt8) (marked : Bool) : UInt8 :=
  if marked then realOffset ||| 0x80 else realOffset

/-- `PARSER_NEXT_BYTE_UPDATE`, behind the copy of a byte that is kept. -/
def parserNextByteUpdate (target : Target) (pages : CompactedPages) (byte : CopiedByte) :
    CompactedPages :=
  let realOffset := if byte.kept then pages.realOffset + 1 else pages.realOffset
  let last := pages.last ++ [relativeOffset realOffset byte.marked]
  if last.length ≥ parserCbcStreamPageSize target then ⟨pages.full ++ [last], [], 0⟩
  else ⟨pages.full, last, realOffset⟩

def compactByteCode (target : Target) (code : List CopiedByte) : CompactedPages :=
  code.foldl (parserNextByteUpdate target) ⟨[], [], 0⟩

/-- How many bytes of the byte code are kept. -/
def keptCount (code : List CopiedByte) : ℕ := code.countP CopiedByte.kept

/-- `real_offset` behind further bytes of a page. -/
def nextRealOffset (realOffset : UInt8) (byte : CopiedByte) : UInt8 :=
  if byte.kept then realOffset + 1 else realOffset

/-- What a page holds in the end. -/
def pageOffsets : UInt8 → List CopiedByte → List UInt8
  | _, [] => []
  | realOffset, byte :: code =>
    relativeOffset (nextRealOffset realOffset byte) byte.marked ::
      pageOffsets (nextRealOffset realOffset byte) code

variable {target : Target} {code page : List CopiedByte} {byte : CopiedByte} {realOffset : UInt8}

theorem keptCount_cons (byte : CopiedByte) (code : List CopiedByte) :
    keptCount (byte :: code) = (if byte.kept then 1 else 0) + keptCount code := by
  rw [keptCount, List.countP_cons, Nat.add_comm]
  rfl

theorem keptCount_append (first second : List CopiedByte) :
    keptCount (first ++ second) = keptCount first + keptCount second :=
  List.countP_append

theorem keptCount_le (code : List CopiedByte) : keptCount code ≤ code.length :=
  List.countP_le_length

theorem pageOffsets_append (realOffset : UInt8) (first second : List CopiedByte) :
    pageOffsets realOffset (first ++ second) =
      pageOffsets realOffset first ++ pageOffsets (first.foldl nextRealOffset realOffset) second := by
  induction first generalizing realOffset with
  | nil => rfl
  | cons byte first ih => simp only [List.cons_append, pageOffsets, ih, List.foldl_cons]

theorem length_pageOffsets (realOffset : UInt8) (code : List CopiedByte) :
    (pageOffsets realOffset code).length = code.length := by
  induction code generalizing realOffset with
  | nil => rfl
  | cons byte code ih => rw [pageOffsets, List.length_cons, ih, List.length_cons]

/-- The mark of a branch does not get in the way of the count. -/
theorem relativeOffset_low (small : realOffset.toNat < 128) (marked : Bool) :
    ((relativeOffset realOffset marked) &&& 0x7f).toNat = realOffset.toNat := by
  have isByte : realOffset.toNat < 256 := by
    omega
  unfold relativeOffset
  rw [toNat_low_seven]
  split_ifs
  · rw [UInt8.toNat_or]
    change (realOffset.toNat ||| 128) % 128 = _
    rw [or_high_bit isByte]
    omega
  · omega

theorem toNat_nextRealOffset (byte : CopiedByte) (small : realOffset.toNat < 128) :
    (nextRealOffset realOffset byte).toNat =
      realOffset.toNat + (if byte.kept then 1 else 0) := by
  unfold nextRealOffset
  split_ifs
  · rw [UInt8.toNat_add]
    change (realOffset.toNat + 1) % 256 = _
    omega
  · rfl

/-- The place of a byte holds the count of the bytes that are kept up to it. -/
theorem getElem?_pageOffsets {index : ℕ} (inside : index < code.length)
    (small : realOffset.toNat + keptCount code < 128) :
    ∃ offset, (pageOffsets realOffset code)[index]? = some offset ∧
      (offset &&& 0x7f).toNat = realOffset.toNat + keptCount (code.take (index + 1)) := by
  induction code generalizing realOffset index with
  | nil => exact absurd inside (Nat.not_lt_zero _)
  | cons byte code ih =>
      rw [keptCount_cons] at small
      have next := toNat_nextRealOffset byte (show realOffset.toNat < 128 by omega)
      cases index with
      | zero =>
          refine ⟨_, rfl, ?_⟩
          rw [relativeOffset_low (by omega), next]
          simp [keptCount]
      | succ index =>
          obtain ⟨offset, read, count⟩ := @ih (nextRealOffset realOffset byte) index
            (Nat.lt_of_succ_lt_succ inside) (by omega)
          refine ⟨offset, read, ?_⟩
          rw [count, next, List.take_succ_cons, keptCount_cons]
          omega

theorem parserCbcStreamPageSize_lt (target : Target) : parserCbcStreamPageSize target < 128 := by
  cases target <;> simp [parserCbcStreamPageSize, Target.sizeofPointer]

theorem parserCbcStreamPageSize_pos (target : Target) : 0 < parserCbcStreamPageSize target := by
  cases target <;> simp [parserCbcStreamPageSize, Target.sizeofPointer]

theorem toUInt32_low {offset : UInt8} {count : ℕ} (low : (offset &&& 0x7f).toNat = count) :
    (offset &&& 0x7f).toUInt32 = UInt32.ofNat count := by
  subst low
  rw [← UInt32.toNat_inj, UInt8.toNat_toUInt32, UInt32.toNat_ofNat']
  have isByte := (offset &&& 0x7f).toNat_lt
  omega

/-- An offset inside a page. -/
theorem byteCodeOffset_page {offset : ℕ} (inside : offset ≤ page.length)
    (small : page.length < 128) (rest : List (List UInt8)) (base : UInt32) :
    byteCodeOffset (pageOffsets 0 page :: rest) offset base =
      some (base + UInt32.ofNat (keptCount (page.take offset))) := by
  have fewer := keptCount_le page
  unfold byteCodeOffset
  split_ifs with positive
  · obtain ⟨relative, read, low⟩ := @getElem?_pageOffsets page 0 (offset - 1) (by omega)
      (by simp; omega)
    rw [Nat.sub_add_cancel positive] at low
    simp only [List.head?_cons, Option.bind_eq_bind, Option.bind_some, read]
    rw [toUInt32_low low]
    simp
  · obtain rfl : offset = 0 := by omega
    simp [keptCount]

/-- An offset in the pages: the full ones are skipped with what they keep. -/
theorem skipByteCodePages_pages {full : List (List CopiedByte)} {last : List CopiedByte}
    {offset : ℕ} {base : UInt32}
    (filled : ∀ page ∈ full, page.length = parserCbcStreamPageSize target)
    (notFilled : last.length < parserCbcStreamPageSize target)
    (inside : offset ≤ (full.flatten ++ last).length) :
    ((skipByteCodePages target (full.map (pageOffsets 0) ++ [pageOffsets 0 last]) offset base).bind
      fun skipped => byteCodeOffset skipped.1 skipped.2.1 skipped.2.2) =
      some (base + UInt32.ofNat (keptCount ((full.flatten ++ last).take offset))) := by
  have small := parserCbcStreamPageSize_lt target
  have positive := parserCbcStreamPageSize_pos target
  induction full generalizing offset base with
  | nil =>
      simp only [List.flatten_nil, List.nil_append] at inside ⊢
      have stays : ¬offset ≥ parserCbcStreamPageSize target := by
        omega
      rw [List.map_nil, List.nil_append, skipByteCodePages, if_neg stays, Option.bind_some]
      exact byteCodeOffset_page inside (by omega) _ _
  | cons page full ih =>
      have pageLength := filled page (List.mem_cons_self ..)
      have others : ∀ page ∈ full, page.length = parserCbcStreamPageSize target := by
        intro page mem
        exact filled page (List.mem_cons_of_mem _ mem)
      rw [List.map_cons, List.cons_append, skipByteCodePages]
      split_ifs with passes
      · have fewer := keptCount_le page
        obtain ⟨relative, read, low⟩ := @getElem?_pageOffsets page 0
          (parserCbcStreamPageSize target - 1) (by omega) (by simp; omega)
        have whole : page.take (parserCbcStreamPageSize target) = page := by
          rw [← pageLength, List.take_length]
        rw [Nat.sub_add_cancel positive, whole] at low
        have left : offset - parserCbcStreamPageSize target ≤ (full.flatten ++ last).length := by
          simp only [List.flatten_cons, List.append_assoc, List.length_append] at inside ⊢
          omega
        have rest := @ih (offset - parserCbcStreamPageSize target)
          (base + UInt32.ofNat (keptCount page)) others left
        have split : ∀ code : List CopiedByte, (page ++ code).take offset =
            page ++ code.take (offset - parserCbcStreamPageSize target) := by
          intro code
          rw [List.take_append, pageLength, List.take_of_length_le (by omega)]
        have low' := toUInt32_low low
        simp only [UInt8.toNat_zero, Nat.zero_add] at low'
        simp only [Option.bind_eq_bind, read, Option.bind_some, low', rest]
        rw [List.flatten_cons, List.append_assoc, split, keptCount_append, UInt32.ofNat_add]
        congr 1
        grind
      · have inPage : offset ≤ page.length := by
          omega
        have first : (page ++ (full.flatten ++ last)).take offset = page.take offset :=
          List.take_append_of_le_length inPage
        rw [Option.bind_some, List.flatten_cons, List.append_assoc, first]
        exact byteCodeOffset_page inPage (by omega) _ _

/-- The pages while the byte code is copied. -/
theorem compactByteCode_pages (target : Target) (code : List CopiedByte) :
    ∃ (full : List (List CopiedByte)) (last : List CopiedByte), code = full.flatten ++ last ∧
      (∀ page ∈ full, page.length = parserCbcStreamPageSize target) ∧
      last.length < parserCbcStreamPageSize target ∧
      compactByteCode target code =
        ⟨full.map (pageOffsets 0), pageOffsets 0 last, last.foldl nextRealOffset 0⟩ := by
  induction code using List.reverseRecOn with
  | nil => exact ⟨[], [], rfl, by simp, parserCbcStreamPageSize_pos target, rfl⟩
  | append_singleton code byte ih =>
      obtain ⟨full, last, split, filled, notFilled, pages⟩ := ih
      have place : pageOffsets 0 (last ++ [byte]) = pageOffsets 0 last ++
          [relativeOffset (nextRealOffset (last.foldl nextRealOffset 0) byte) byte.marked] := by
        rw [pageOffsets_append]
        rfl
      have step : compactByteCode target (code ++ [byte]) =
          parserNextByteUpdate target (compactByteCode target code) byte := by
        rw [compactByteCode, List.foldl_append]
        rfl
      have length : (pageOffsets 0 last ++ [relativeOffset
          (nextRealOffset (last.foldl nextRealOffset 0) byte) byte.marked]).length =
          last.length + 1 := by
        rw [List.length_append, length_pageOffsets, List.length_singleton]
      rw [step, pages]
      by_cases fills : last.length + 1 ≥ parserCbcStreamPageSize target
      · refine ⟨full ++ [last ++ [byte]], [], by simp [split], ?_,
          parserCbcStreamPageSize_pos target, ?_⟩
        · intro page mem
          rcases List.mem_append.mp mem with earlier | isLast
          · exact filled page earlier
          · rw [List.mem_singleton.mp isLast, List.length_append, List.length_singleton]
            omega
        · rw [List.map_append, List.map_singleton, place]
          exact if_pos (by rw [← length] at fills; exact fills)
      · refine ⟨full, last ++ [byte], by simp [split], filled, ?_, ?_⟩
        · rw [List.length_append, List.length_singleton]
          omega
        · rw [place, List.foldl_append]
          exact if_neg (by rw [← length] at fills; exact fills)

/-- The byte code at an offset is where the bytes that are kept in front of it end. -/
theorem finalOffset_compactByteCode {offset : UInt32} (inside : offset.toNat ≤ code.length) :
    finalOffset target (compactByteCode target code).all offset =
      some (UInt32.ofNat (keptCount (code.take offset.toNat))) := by
  obtain ⟨full, last, rfl, filled, notFilled, pages⟩ := compactByteCode_pages target code
  have placed := @skipByteCodePages_pages target full last offset.toNat 0 filled notFilled inside
  rw [finalOffset, pages, CompactedPages.all]
  simpa using placed

/-- A record at the offset of its byte code among the bytes that are kept. -/
def LineRecord.placeIn (code : List CopiedByte) (record : LineRecord) : LineRecord :=
  { record with offset := UInt32.ofNat (keptCount (code.take record.offset.toNat)) }

variable {records : List LineRecord} {record : LineRecord}

theorem mapM_place (inside : ∀ record ∈ records, record.offset.toNat ≤ code.length) :
    records.mapM (LineRecord.place target (compactByteCode target code).all) =
      some (records.map (LineRecord.placeIn code)) := by
  induction records with
  | nil => rfl
  | cons record records ih =>
      have one : record.place target (compactByteCode target code).all =
          some (record.placeIn code) := by
        rw [LineRecord.place, finalOffset_compactByteCode (inside record (List.mem_cons_self ..))]
        rfl
      have rest : ∀ record ∈ records, record.offset.toNat ≤ code.length := by
        intro record mem
        exact inside record (List.mem_cons_of_mem _ mem)
      simp [List.mapM_cons, one, ih rest]

theorem keptCount_take_le (code : List CopiedByte) (count : ℕ) :
    keptCount (code.take count) ≤ count :=
  Nat.le_trans (keptCount_le _) (by simp)

theorem toNat_placeIn (small : record.offset.toNat < 2 ^ 31) :
    (record.placeIn code).offset.toNat = keptCount (code.take record.offset.toNat) := by
  have fewer := keptCount_take_le code record.offset.toNat
  change (UInt32.ofNat _).toNat = _
  rw [UInt32.toNat_ofNat']
  omega

/-- The removal of bytes keeps the order of the records. -/
theorem Grows.placeIn (grows : Grows records) (code : List CopiedByte) :
    Grows (records.map (LineRecord.placeIn code)) := by
  obtain ⟨sorted, small⟩ := grows
  constructor
  · rw [List.pairwise_map]
    apply sorted.imp_of_mem
    intro earlier later earlierMem laterMem le
    rw [UInt32.le_iff_toNat_le] at le ⊢
    rw [toNat_placeIn (small earlier earlierMem), toNat_placeIn (small later laterMem)]
    have sublist : (code.take earlier.offset.toNat).Sublist (code.take later.offset.toNat) :=
      (List.take_prefix_take_left le).sublist
    exact sublist.countP_le
  · intro placed mem
    obtain ⟨record, recordMem, rfl⟩ := List.mem_map.mp mem
    have fewer := keptCount_take_le code record.offset.toNat
    have bound := small record recordMem
    rw [toNat_placeIn bound]
    omega

end Cmsframe
