import Cmsframe.Memory.FreeList

/-!
# Taking memory from the free list

The search for a region, the search for the node before a block, and what the memory is after
the front of a region is taken.
-/

namespace Cmsframe

open ByteMemory Tiling

variable {config : JmemConfig} {memory : Memory} {previous address : ℕ}
  {segments before after : List Segment}

theorem offsetFromAddr_addrFromOffset (offset : ℕ) :
    offsetFromAddr (addrFromOffset offset) = offset :=
  Nat.add_sub_cancel_left jmemAlignment offset

theorem addrFromOffset_offsetFromAddr (inArea : jmemAlignment ≤ address) :
    addrFromOffset (offsetFromAddr address) = address :=
  Nat.add_sub_cancel' inArea

theorem offset_lt_end (config : JmemConfig) (inHeap : address ≤ config.heapSize) :
    offsetFromAddr address < jmemHeapEndOfList := by
  have small := config.small
  have hasArea := config.hasArea
  rw [jmemAlignment] at hasArea
  rw [offsetFromAddr, jmemAlignment, jmemHeapEndOfList]
  omega

/-- The link of a node that is followed by some free segment. -/
theorem FreeList.next_cases (freeList : FreeList memory previous address segments) :
    (nextOffset memory previous = jmemHeapEndOfList ∧ regions address segments = []) ∨
      ∃ front size back, segments = front ++ .free size :: back ∧
        regions address front = [] ∧ lastRegion previous address front = previous ∧
        nextOffset memory previous = offsetFromAddr (address + length front) ∧
        regionSize memory (address + length front) = size := by
  induction segments generalizing address with
  | nil => exact .inl ⟨freeList.2, rfl⟩
  | cons segment segments ih =>
      cases segment with
      | used size =>
          rcases ih freeList with ⟨ends, none⟩ | ⟨front, first, back, rfl, none, same, next, isSize⟩
          · exact .inl ⟨ends, none⟩
          · refine .inr ⟨.used size :: front, first, back, rfl, none, same, ?_, ?_⟩
            · rw [next, length_cons, Segment.size_used, Nat.add_assoc]
            · rwa [length_cons, Segment.size_used, ← Nat.add_assoc]
      | free size =>
          rcases freeList with ⟨⟨link, isSize, _⟩, _⟩
          exact .inr ⟨[], size, segments, rfl, rfl, rfl, link, isSize⟩

theorem regions_length_le (address : ℕ) (fits : Fits segments) :
    (regions address segments).length ≤ length segments := by
  induction segments generalizing address with
  | nil => exact le_rfl
  | cons segment segments ih =>
      rcases aligned_cons.mp fits with ⟨⟨positive, _⟩, restFits⟩
      cases segment with
      | used size => exact (ih _ restFits).trans (Nat.le_add_left _ _)
      | free size =>
          have rest := ih (address + size) restFits
          simp only [Segment.size_free] at positive
          simp only [regions, List.length_cons, length_cons, Segment.size_free]
          omega

theorem isHeapPointer_of (lower : jmemAlignment ≤ address) (upper : address ≤ config.heapSize) :
    jmemIsHeapPointer config address = true := by
  simp [jmemIsHeapPointer, lower, upper]

/-- The search goes through the free list and stops at the first region that is big enough. -/
theorem findRegion_spec (config : JmemConfig) (required fuel : ℕ) (fits : Fits segments)
    (inArea : jmemAlignment ≤ address) (inHeap : address + length segments ≤ config.heapSize)
    (freeList : FreeList memory previous address segments)
    (enough : (regions address segments).length < fuel) :
    (findRegion config memory required fuel previous (nextOffset memory previous) = .ok none ∧
      ∀ region ∈ regions address segments, region.2 < required) ∨
    ∃ before size after, segments = before ++ .free size :: after ∧ required ≤ size ∧
      findRegion config memory required fuel previous (nextOffset memory previous) =
        .ok (some (lastRegion previous address before, address + length before)) := by
  induction fuel generalizing previous address segments with
  | zero => omega
  | succ fuel ih =>
      rw [findRegion]
      rcases freeList.next_cases with ⟨ends, none⟩ |
        ⟨front, size, back, rfl, none, same, next, isSize⟩
      · left
        rw [if_pos ends, none]
        exact ⟨rfl, nofun⟩
      · simp only [length_append, length_cons, Segment.size_free] at inHeap
        rcases aligned_append.mp fits with ⟨_, restFits⟩
        rcases aligned_cons.mp restFits with ⟨_, backFits⟩
        have notEnd : offsetFromAddr (address + length front) < jmemHeapEndOfList :=
          offset_lt_end config (by omega)
        have isCurrent : addrFromOffset (offsetFromAddr (address + length front)) =
            address + length front := addrFromOffset_offsetFromAddr (by omega)
        rw [next, if_neg notEnd.ne]
        simp only [isCurrent, isSize]
        have backList := ((freeList_append _ _ _ _).mp freeList).2
        rw [same] at backList
        have backFree : FreeList memory (address + length front) (address + length front + size)
            back := ⟨backList.1.2.2, backList.2⟩
        have isValid : jmemIsHeapPointer config (address + length front) = true ∧
            (nextOffset memory (address + length front) = jmemHeapEndOfList ∨
              jmemIsHeapPointer config
                (addrFromOffset (nextOffset memory (address + length front))) = true) := by
          refine ⟨isHeapPointer_of (by omega) (by omega), ?_⟩
          rcases backFree.next_cases with ⟨ends, _⟩ | ⟨inner, other, rest, rfl, _, _, link, _⟩
          · exact .inl ends
          · right
            simp only [length_append, length_cons, Segment.size_free] at inHeap
            rw [link, addrFromOffset_offsetFromAddr (by omega)]
            exact isHeapPointer_of (by omega) (by omega)
        rw [if_pos isValid]
        by_cases isBig : required ≤ size
        · rw [if_pos isBig]
          exact .inr ⟨front, size, back, rfl, isBig, by rw [same]⟩
        · rw [if_neg isBig]
          simp only [regions_append, none, List.nil_append, regions, List.length_cons] at enough
          rcases ih backFits (by omega) (by omega) backFree (by omega) with ⟨returns, small⟩ |
            ⟨inner, other, rest, rfl, isEnough, returns⟩
          · refine .inl ⟨returns, fun region mem => ?_⟩
            simp only [regions_append, none, List.nil_append, regions, List.mem_cons] at mem
            rcases mem with rfl | inBack
            · simp only
              omega
            · exact small region inBack
          · refine .inr ⟨front ++ .free size :: inner, other, rest, ?_, isEnough, ?_⟩
            · simp
            · rw [returns, lastRegion_append, same]
              simp [lastRegion, Nat.add_assoc]

/-- The node before an address between segments is found. -/
theorem findPrevLoop_spec (config : JmemConfig) (fuel : ℕ) (fits : Fits (before ++ after))
    (inArea : jmemAlignment ≤ address)
    (inHeap : address + length (before ++ after) ≤ config.heapSize)
    (freeList : FreeList memory previous address (before ++ after))
    (enough : (regions address before).length < fuel) :
    findPrevLoop config memory (offsetFromAddr (address + length before)) fuel previous =
      .ok (lastRegion previous address before) := by
  induction before generalizing previous address fuel with
  | nil =>
      rw [List.nil_append] at freeList
      have notBefore : ¬nextOffset memory previous < offsetFromAddr address := by
        rcases freeList.next_cases with ⟨ends, _⟩ | ⟨front, size, back, _, _, _, link, _⟩
        · have inside : offsetFromAddr address < jmemHeapEndOfList := offset_lt_end config (by omega)
          omega
        · rw [link, offsetFromAddr, offsetFromAddr]
          omega
      cases fuel with
      | zero => exact absurd enough (Nat.not_lt_zero _)
      | succ fuel =>
          rw [findPrevLoop, length_nil, Nat.add_zero, if_neg notBefore]
          rfl
  | cons segment before ih =>
      rw [List.cons_append] at fits freeList
      rcases aligned_cons.mp fits with ⟨⟨positive, _⟩, restFits⟩
      rw [List.cons_append, length_cons] at inHeap
      rw [length_cons, ← Nat.add_assoc]
      cases segment with
      | used size =>
          rw [Segment.size_used] at inHeap ⊢
          exact ih _ restFits (by omega) (by omega) freeList enough
      | free size =>
          rw [Segment.size_free] at inHeap positive ⊢
          rcases freeList with ⟨⟨link, _, rest⟩, ends⟩
          rw [regions, List.length_cons] at enough
          cases fuel with
          | zero => exact absurd enough (Nat.not_lt_zero _)
          | succ fuel =>
              have isBefore : offsetFromAddr address <
                  offsetFromAddr (address + size + length before) := by
                rw [jmemAlignment] at inArea
                rw [offsetFromAddr, offsetFromAddr, jmemAlignment]
                omega
              rw [findPrevLoop, link, if_pos isBefore, addrFromOffset_offsetFromAddr inArea,
                if_pos (isHeapPointer_of inArea (by omega))]
              exact ih _ restFits (by omega) (by omega) ⟨rest, ends⟩ (by omega)

theorem regionSize_setNextOffset {region other offset : ℕ}
    (apart : region + 8 ≤ other ∨ other ≤ region) :
    regionSize (setNextOffset memory other offset) region = regionSize memory region :=
  readWord_writeWord_apart (by omega)

theorem regionSize_setRegionSize {region size : ℕ} (small : size < 2 ^ 32) :
    regionSize (setRegionSize memory region size) region = size :=
  readWord_writeWord small

theorem nextOffset_lt (memory : Memory) (region : ℕ) : nextOffset memory region < 2 ^ 32 :=
  readWord_lt memory region

theorem nextOffset_setNextOffset {region offset : ℕ} (small : offset < 2 ^ 32) :
    nextOffset (setNextOffset memory region offset) region = offset :=
  readWord_writeWord small

theorem nextOffset_setRegionSize {region other size : ℕ}
    (apart : region + 4 ≤ other + 4 ∨ other + 8 ≤ region) :
    nextOffset (setRegionSize memory other size) region = nextOffset memory region :=
  readWord_writeWord_apart (by omega)

theorem nextOffset_setNextOffset_apart {region other offset : ℕ}
    (apart : region + 4 ≤ other ∨ other + 4 ≤ region) :
    nextOffset (setNextOffset memory other offset) region = nextOffset memory region :=
  readWord_writeWord_apart apart

/-- Only the link of the node before and the header of what remains change. -/
theorem takeFront_outside {current required byte : ℕ}
    (notPrevious : ¬(previous ≤ byte ∧ byte < previous + 4))
    (notRemaining : required < regionSize memory current →
      ¬(current + required ≤ byte ∧ byte < current + required + 8)) :
    takeFront memory previous current required byte = memory byte := by
  rw [takeFront]
  split_ifs with isLarger
  · have notRemaining := notRemaining isLarger
    rw [setNextOffset, writeWord_outside (by omega), setNextOffset, writeWord_outside (by omega),
      setRegionSize, writeWord_outside (by omega)]
  · rw [setNextOffset, writeWord_outside (by omega)]

/-- Two sizes in memory differ by a header at least. -/
theorem add_jmemAlignment_le {small large : ℕ} (smallDivides : jmemAlignment ∣ small)
    (largeDivides : jmemAlignment ∣ large) (less : small < large) :
    small + jmemAlignment ≤ large := by
  rw [jmemAlignment] at *
  omega

/-- The free list after the front of a region is taken. -/
theorem FreeList.takeFront (config : JmemConfig) {size required : ℕ}
    (fits : Fits (before ++ .free size :: after))
    (apart : previous + jmemAlignment ≤ address)
    (inHeap : address + length (before ++ .free size :: after) ≤ config.heapSize)
    (freeList : FreeList memory previous address (before ++ .free size :: after))
    (positive : 0 < required) (divides : jmemAlignment ∣ required) (enough : required ≤ size) :
    FreeList (takeFront memory (lastRegion previous address before) (address + length before)
      required) previous address (before ++ (carve size required ++ after)) := by
  have small := config.small
  rcases aligned_append.mp fits with ⟨beforeFits, restFits⟩
  rcases aligned_cons.mp restFits with ⟨⟨_, sizeDivides⟩, afterFits⟩
  rcases (freeList_append _ _ _ _).mp freeList with ⟨linked, ⟨_, isSize, afterLinked⟩, ends⟩
  have bounds := lastRegion_bounds previous address beforeFits
  simp only [length_append, length_cons, Segment.size_free] at inHeap
  rw [jmemAlignment] at apart bounds
  have frontLinked : Linked (Cmsframe.takeFront memory (lastRegion previous address before)
      (address + length before) required) previous address before := by
    refine linked.congr beforeFits apart fun byte range notLast => takeFront_outside notLast ?_
    omega
  have behind : ∀ byte, address + length before + size ≤ byte →
      byte < address + length before + size + length after →
        Cmsframe.takeFront memory (lastRegion previous address before) (address + length before)
          required byte = memory byte := by
    intro byte lower _
    apply takeFront_outside
    · omega
    · intro isLarger
      rw [isSize] at isLarger
      have room := add_jmemAlignment_le divides sizeDivides isLarger
      rw [jmemAlignment, Segment.size_free] at room
      omega
  refine (freeList_append _ _ _ _).mpr ⟨frontLinked, ?_⟩
  rw [carve]
  split_ifs with isLarger
  · have room := add_jmemAlignment_le divides sizeDivides isLarger
    rw [jmemAlignment] at room
    have link : nextOffset (Cmsframe.takeFront memory (lastRegion previous address before)
        (address + length before) required) (lastRegion previous address before) =
          offsetFromAddr (address + length before + required) := by
      rw [Cmsframe.takeFront, isSize, if_pos isLarger]
      apply nextOffset_setNextOffset
      rw [offsetFromAddr]
      omega
    have header : regionSize (Cmsframe.takeFront memory (lastRegion previous address before)
        (address + length before) required) (address + length before + required) =
          size - required := by
      rw [Cmsframe.takeFront, isSize, if_pos isLarger, regionSize_setNextOffset (by omega),
        regionSize_setNextOffset (by omega), regionSize_setRegionSize (by omega)]
    have nextLink : nextOffset (Cmsframe.takeFront memory (lastRegion previous address before)
        (address + length before) required) (address + length before + required) =
          nextOffset memory (address + length before) := by
      rw [Cmsframe.takeFront, isSize, if_pos isLarger,
        nextOffset_setNextOffset_apart (by omega),
        nextOffset_setNextOffset (nextOffset_lt _ _)]
    have back := FreeList.congr afterFits nextLink behind ⟨afterLinked, ends⟩
    have sum : address + length before + required + (size - required) =
      address + length before + size := by omega
    rw [← sum] at back
    exact ⟨⟨link, header, back.1⟩, back.2⟩
  · have isSame : required = size := by omega
    have link : nextOffset (Cmsframe.takeFront memory (lastRegion previous address before)
        (address + length before) required) (lastRegion previous address before) =
          nextOffset memory (address + length before) := by
      rw [Cmsframe.takeFront, isSize, if_neg isLarger, nextOffset_setNextOffset (nextOffset_lt _ _)]
    have back := FreeList.congr afterFits link behind ⟨afterLinked, ends⟩
    rw [← isSame] at back
    exact back

end Cmsframe
