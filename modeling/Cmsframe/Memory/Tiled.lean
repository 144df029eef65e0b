import Cmsframe.Memory.Release

/-!
# The invariant of the heap

The heap area is a tiling in which no two free regions meet, the free list describes it, and the
counters agree with it. While a block is moved, its memory is in use but it is not counted, which
is what `hidden` stands for. By as much the limit may be too high until the new block is counted.
-/

namespace Cmsframe

open ByteMemory Tiling

/-- The heap is tiled by segments. -/
structure Tiled (config : JmemConfig) (heap : JmemHeap) (segments : List Segment)
    (hidden slack : ℕ) : Prop where
  fits : Fits segments
  whole : jmemAlignment + length segments = config.heapSize
  coalesced : Coalesced segments
  firstSize : regionSize heap.memory 0 = 0
  freeList : FreeList heap.memory 0 jmemAlignment segments
  skip : heap.listSkip = 0 ∨ config.heapSize ≤ heap.listSkip ∨
    ∃ size, (heap.listSkip, size) ∈ regions jmemAlignment segments
  accounted : heap.allocatedSize + hidden = usedLength segments
  belowLimit : heap.allocatedSize ≤ heap.limit
  limitBelow : heap.limit ≤ heap.allocatedSize + slack + config.gcLimit

/-- The bytes of used segments are the same. -/
def KeepsBlocks (segments : List Segment) (memory later : Memory) : Prop :=
  ∀ block ∈ blocks jmemAlignment segments, ∀ byte, block.1 ≤ byte → byte < block.1 + block.2 →
    later byte = memory byte

variable {config : JmemConfig} {heap : JmemHeap} {memory later : Memory}
  {segments before after : List Segment} {hidden slack allocated limit fuel address : ℕ}

theorem dvd_alignSize (size : ℕ) : jmemAlignment ∣ alignSize size :=
  Nat.dvd_mul_left _ _

theorem le_alignSize (size : ℕ) : size ≤ alignSize size := by
  rw [alignSize, jmemAlignment]
  omega

theorem alignSize_pos {size : ℕ} (positive : 0 < size) : 0 < alignSize size :=
  positive.trans_le (le_alignSize size)

/-- The raised limit is above what is allocated, and not by more than needed. -/
theorem raiseLimit_spec (enough : allocated < limit + fuel) :
    allocated < raiseLimit config allocated fuel limit ∧
      raiseLimit config allocated fuel limit ≤ max limit (allocated + config.gcLimit) := by
  have limited := config.limited
  rw [jmemAlignment] at limited
  induction fuel generalizing limit with
  | zero => exact ⟨enough, Nat.le_max_left _ _⟩
  | succ fuel ih =>
      rw [raiseLimit]
      split_ifs with isReached
      · rcases @ih (limit + config.gcLimit) (by omega) with ⟨above, bound⟩
        exact ⟨above, by omega⟩
      · omega

/-- The lowered limit is not below what is allocated, and not above it by more than needed. -/
theorem lowerLimit_spec (atLeast : allocated ≤ limit) (enough : limit < fuel) :
    allocated ≤ lowerLimit config allocated fuel limit ∧
      lowerLimit config allocated fuel limit < allocated + config.gcLimit := by
  have limited := config.limited
  rw [jmemAlignment] at limited
  induction fuel generalizing limit with
  | zero => omega
  | succ fuel ih =>
      rw [lowerLimit]
      split_ifs with isHigh
      · exact ih (by omega) (by omega)
      · omega

/-- A tiling of all of the heap area is in the heap. -/
theorem Tiled.inHeap (tiled : Tiled config heap (before ++ after) hidden slack) :
    jmemAlignment + length before + length after = config.heapSize := by
  rw [Nat.add_assoc, ← length_append]
  exact tiled.whole

/-- Segments begin at aligned addresses. -/
theorem Tiled.aligned (tiled : Tiled config heap (before ++ after) hidden slack) :
    (jmemAlignment + length before) % jmemAlignment = 0 := by
  rw [Nat.add_mod_left]
  exact Nat.mod_eq_zero_of_dvd (aligned_append.mp tiled.fits).1.dvd_length

/-- The node before an address between segments is found from where the search starts. -/
theorem jmemHeapFindPrev_spec (tiled : Tiled config heap (before ++ after) hidden slack) :
    jmemHeapFindPrev config heap (jmemAlignment + length before) =
      .ok (lastRegion 0 jmemAlignment before) := by
  have inHeap := tiled.inHeap
  have fromFirst : findPrevLoop config heap.memory
      (offsetFromAddr (jmemAlignment + length before)) config.heapSize 0 =
        .ok (lastRegion 0 jmemAlignment before) := by
    apply findPrevLoop_spec config config.heapSize tiled.fits le_rfl tiled.whole.le tiled.freeList
    have count := regions_length_le jmemAlignment (aligned_append.mp tiled.fits).1
    rw [jmemAlignment] at inHeap count ⊢
    omega
  rw [jmemHeapFindPrev, if_pos (isHeapPointer_of (by omega) (by omega))]
  split_ifs with isBefore
  · rcases tiled.skip with isFirst | isBehind | ⟨size, mem⟩
    · rw [isFirst]
      exact fromFirst
    · omega
    · -- The search starts at a region in front of the block.
      rw [regions_append, List.mem_append] at mem
      rcases mem with inBefore | inAfter
      · rcases exists_of_mem_regions inBefore with ⟨front, rest, rfl, isSkip⟩
        rw [← isSkip.symm] at isBefore
        have fits := tiled.fits
        have freeList := tiled.freeList
        simp only [List.append_assoc, List.cons_append] at fits freeList
        have restFits := (aligned_cons.mp (aligned_append.mp fits).2).2
        have count := regions_length_le (jmemAlignment + length front + size)
          (aligned_append.mp restFits).1
        rcases (freeList_append _ _ _ _).mp freeList with ⟨_, ⟨_, _, linked⟩, ends⟩
        simp only [length_append, length_cons, Segment.size_free] at inHeap count
        have alignment : jmemAlignment = 8 := rfl
        have found := findPrevLoop_spec config config.heapSize restFits (by omega)
          (by rw [length_append]; omega) ⟨linked, ends⟩ (by omega)
        rw [isSkip, lastRegion_append, lastRegion, length_append, length_cons, Segment.size_free]
        rw [Nat.add_assoc, Nat.add_assoc] at found
        exact found
      · have bounds := regions_bounds inAfter
        omega
  · exact fromFirst

/-- A node of the free list: the one before the area, or a free region. -/
def IsNode (segments : List Segment) (region : ℕ) : Prop :=
  region = 0 ∨ ∃ size, (region, size) ∈ regions jmemAlignment segments

theorem isNode_append (node : IsNode before address) : IsNode (before ++ after) address := by
  rcases node with isFirst | ⟨size, mem⟩
  · exact .inl isFirst
  · exact .inr ⟨size, by
      rw [regions_append]
      exact List.mem_append_left _ mem⟩

theorem isNode_lastRegion (segments : List Segment) :
    IsNode segments (lastRegion 0 jmemAlignment segments) := by
  rcases lastRegion_cases 0 jmemAlignment segments with ⟨isFirst, _⟩ |
    ⟨front, size, back, rfl, isLast, _⟩
  · exact .inl isFirst
  · refine .inr ⟨size, ?_⟩
    rw [isLast, regions_append]
    exact List.mem_append_right _ List.mem_cons_self

theorem IsNode.skip (node : IsNode segments heap.listSkip) :
    heap.listSkip = 0 ∨ config.heapSize ≤ heap.listSkip ∨
      ∃ size, (heap.listSkip, size) ∈ regions jmemAlignment segments :=
  node.imp_right .inr

/-- Headers are not in used segments. -/
theorem IsNode.apart {block size : ℕ} (node : IsNode segments address) (fits : Fits segments)
    (mem : (block, size) ∈ blocks jmemAlignment segments) :
    block + size ≤ address ∨ address + jmemAlignment ≤ block := by
  rcases node with rfl | ⟨other, regionMem⟩
  · exact .inr ((Nat.zero_add _).le.trans (blocks_bounds mem).1)
  · rcases exists_of_mem_regions regionMem with ⟨before, after, rfl, _⟩
    have large := fits.size_le (List.mem_append_right before List.mem_cons_self)
    have apart := blocks_apart_regions mem regionMem
    simp only [Segment.size_free] at large
    omega

/-- The front of a free region is taken. -/
theorem Tiled.takeFront {later : JmemHeap} {size required : ℕ}
    (tiled : Tiled config heap (before ++ .free size :: after) hidden slack)
    (positive : 0 < required) (divides : jmemAlignment ∣ required) (enough : required ≤ size)
    (isMemory : later.memory = takeFront heap.memory (lastRegion 0 jmemAlignment before)
      (jmemAlignment + length before) required)
    (skip : later.listSkip = 0 ∨ config.heapSize ≤ later.listSkip ∨
      ∃ other, (later.listSkip, other) ∈
        regions jmemAlignment (before ++ (carve size required ++ after)))
    (isAllocated : later.allocatedSize = heap.allocatedSize + required)
    (belowLimit : later.allocatedSize ≤ later.limit)
    (limitBelow : later.limit ≤ max heap.limit (later.allocatedSize + config.gcLimit)) :
    Tiled config later (before ++ (carve size required ++ after)) hidden (slack - required) ∧
      KeepsBlocks (before ++ .free size :: after) heap.memory later.memory := by
  have alignment : jmemAlignment = 8 := rfl
  rcases aligned_append.mp tiled.fits with ⟨beforeFits, restFits⟩
  rcases aligned_cons.mp restFits with ⟨⟨_, sizeDivides⟩, afterFits⟩
  rw [Segment.size_free] at sizeDivides
  rcases carve_spec (jmemAlignment + length before) enough with ⟨carveLength, _, carveUsed⟩
  have isSize : regionSize heap.memory (jmemAlignment + length before) = size :=
    ((freeList_append _ _ _ _).mp tiled.freeList).2.1.2.1
  have whole := tiled.whole
  have accounted := tiled.accounted
  have oldLimit := tiled.limitBelow
  simp only [length_append, length_cons, Segment.size_free] at whole
  simp only [usedLength_append, usedLength] at accounted
  have node : IsNode (before ++ .free size :: after) (lastRegion 0 jmemAlignment before) :=
    isNode_append (isNode_lastRegion before)
  constructor
  · refine ⟨aligned_append.mpr ⟨beforeFits, aligned_append.mpr ⟨aligned_carve positive divides
      sizeDivides, afterFits⟩⟩, ?_, coalesced_carve tiled.coalesced, ?_, ?_, skip, ?_, belowLimit,
      by omega⟩
    · simp only [length_append, carveLength]
      omega
    · have bounds := lastRegion_bounds 0 jmemAlignment beforeFits
      rw [isMemory]
      refine Eq.trans (readWord_congr fun byte lower upper => ?_) tiled.firstSize
      exact takeFront_outside (by omega) fun _ => by omega
    · rw [isMemory]
      exact tiled.freeList.takeFront config tiled.fits (Nat.zero_add _).le
        tiled.whole.le positive divides enough
    · simp only [usedLength_append, carveUsed]
      omega
  · rintro ⟨block, count⟩ mem byte lower upper
    have apartNode := node.apart tiled.fits mem
    have regionMem : (jmemAlignment + length before, size) ∈
        regions jmemAlignment (before ++ .free size :: after) := by
      rw [regions_append]
      exact List.mem_append_right _ List.mem_cons_self
    have apartRegion := blocks_apart_regions mem regionMem
    simp only at lower upper
    rw [isMemory]
    refine takeFront_outside (by omega) fun isLarger => ?_
    rw [isSize] at isLarger
    have room := add_jmemAlignment_le divides sizeDivides isLarger
    omega

/-- What follows the node before the area. -/
theorem FreeList.first_cases (freeList : FreeList memory 0 jmemAlignment segments) :
    config.heapSize ≤ addrFromOffset (nextOffset memory 0) ∨
      ∃ size, (addrFromOffset (nextOffset memory 0), size) ∈ regions jmemAlignment segments := by
  have alignment : jmemAlignment = 8 := rfl
  have small := config.small
  rcases freeList.next_cases with ⟨ends, _⟩ | ⟨front, size, back, rfl, _, _, link, _⟩
  · left
    rw [ends, addrFromOffset, jmemHeapEndOfList]
    omega
  · right
    rw [link, addrFromOffset_offsetFromAddr (by omega), regions_append]
    exact ⟨size, List.mem_append_right _ List.mem_cons_self⟩

/-- The fast path takes the front of the first free region. -/
theorem allocFromFirst_spec (tiled : Tiled config heap segments hidden slack)
    (notEnd : nextOffset heap.memory 0 ≠ jmemHeapEndOfList) :
    ∃ before size after later, segments = before ++ .free size :: after ∧ jmemAlignment ≤ size ∧
      allocFromFirst config heap = .ok (jmemAlignment + length before, later) ∧
      Tiled config later (before ++ (carve size jmemAlignment ++ after)) hidden
        (slack - jmemAlignment) ∧ KeepsBlocks segments heap.memory later.memory := by
  have alignment : jmemAlignment = 8 := rfl
  have limited := config.limited
  have belowLimit := tiled.belowLimit
  rcases tiled.freeList.next_cases with ⟨ends, _⟩ |
    ⟨before, size, after, rfl, none, isFirst, link, isSize⟩
  · exact absurd ends notEnd
  · have large := tiled.fits.size_le (List.mem_append_right before List.mem_cons_self)
    have inHeap := tiled.inHeap
    rw [Segment.size_free] at large
    rw [length_cons, Segment.size_free] at inHeap
    have isData : addrFromOffset (nextOffset heap.memory 0) = jmemAlignment + length before := by
      rw [link, addrFromOffset_offsetFromAddr (by omega)]
    have isMemory : takeFromFirst heap.memory = takeFront heap.memory
        (lastRegion 0 jmemAlignment before) (jmemAlignment + length before) jmemAlignment := by
      rw [takeFromFirst, takeFront, isFirst]
      simp only [isData, isSize]
      by_cases isExact : size = jmemAlignment
      · rw [if_pos isExact, if_neg (by omega)]
      · rw [if_neg isExact, if_pos (by omega), nextOffset_setRegionSize (by omega)]
    refine ⟨before, size, after, heap.fastAllocated config, rfl, large, ?_, ?_⟩
    · have isPointer : jmemIsHeapPointer config (jmemAlignment + length before) = true :=
        isHeapPointer_of (by omega) (by omega)
      rw [allocFromFirst, isData]
      simp only [isPointer, not_true_eq_false, if_false]
      rw [isSize, if_neg (by omega)]
    · refine tiled.takeFront (by omega) (Nat.dvd_refl _) large isMemory ?_ rfl ?_ ?_
      · rw [JmemHeap.fastAllocated]
        simp only [isData]
        split_ifs with isSkip
        · have freeList := tiled.freeList.takeFront config tiled.fits
            (Nat.zero_add _).le tiled.whole.le (by omega) (Nat.dvd_refl _) large
          rw [← isMemory] at freeList
          exact .inr freeList.first_cases
        · rcases tiled.skip with isZero | isBehind | ⟨other, mem⟩
          · exact .inl isZero
          · exact .inr (.inl isBehind)
          · rw [regions_append, none, List.nil_append, regions] at mem
            rcases List.mem_cons.mp mem with isThis | inAfter
            · exact absurd (Prod.mk.inj isThis).1.symm isSkip
            · refine .inr (.inr ⟨other, ?_⟩)
              rw [regions_append, none, List.nil_append, regions_append,
                (carve_spec 0 large).1]
              exact List.mem_append_right _ inAfter
      · rw [JmemHeap.fastAllocated]
        simp only
        split_ifs <;> omega
      · rw [JmemHeap.fastAllocated]
        simp only
        split_ifs <;> omega

/-- The counters after some memory is taken. -/
theorem allocated_spec (tiled : Tiled config heap segments hidden slack) (size : ℕ) :
    (heap.allocated config size).allocatedSize ≤ (heap.allocated config size).limit ∧
      (heap.allocated config size).limit ≤
        max heap.limit ((heap.allocated config size).allocatedSize + config.gcLimit) := by
  have belowLimit := tiled.belowLimit
  have raised : heap.allocatedSize + size < (heap.allocated config size).limit ∧
      (heap.allocated config size).limit ≤
        max heap.limit (heap.allocatedSize + size + config.gcLimit) :=
    raiseLimit_spec (by omega)
  exact ⟨raised.1.le, raised.2⟩

/-- The counters after some memory is given back. -/
theorem released_spec (tiled : Tiled config heap segments hidden slack) (size : ℕ) :
    (heap.released config size).allocatedSize ≤ (heap.released config size).limit ∧
      (heap.released config size).limit <
        (heap.released config size).allocatedSize + config.gcLimit := by
  have belowLimit := tiled.belowLimit
  have atLeast : heap.allocatedSize - size ≤ heap.limit := by omega
  exact lowerLimit_spec atLeast (by omega)

/-- The slow path takes the front of the first region that is big enough. -/
theorem allocFromList_spec {required : ℕ} (tiled : Tiled config heap segments hidden slack)
    (positive : 0 < required) (divides : jmemAlignment ∣ required) :
    (allocFromList config heap required = .ok (none, heap) ∧
      ∀ region ∈ regions jmemAlignment segments, region.2 < required) ∨
    ∃ before free after later, segments = before ++ .free free :: after ∧ required ≤ free ∧
      allocFromList config heap required = .ok (some (jmemAlignment + length before), later) ∧
      Tiled config later (before ++ (carve free required ++ after)) hidden (slack - required) ∧
      KeepsBlocks segments heap.memory later.memory := by
  have count := regions_length_le jmemAlignment tiled.fits
  have whole := tiled.whole
  have alignment : jmemAlignment = 8 := rfl
  rw [allocFromList]
  rcases findRegion_spec config required config.heapSize tiled.fits le_rfl whole.le
    tiled.freeList (by omega) with ⟨returns, none⟩ | ⟨before, free, after, rfl, enough, returns⟩
  · rw [returns]
    exact .inl ⟨rfl, none⟩
  · rw [returns]
    refine .inr ⟨before, free, after, _, rfl, enough, rfl, ?_⟩
    have limits := allocated_spec tiled required
    refine tiled.takeFront positive divides enough rfl ?_ rfl limits.1 limits.2
    exact (isNode_append (isNode_lastRegion before)).imp_right .inr

/-- `jmem_heap_alloc` takes the front of a region that is big enough, if there is one. -/
theorem jmemHeapAlloc_spec {size : ℕ} (tiled : Tiled config heap segments hidden slack)
    (positive : 0 < size) :
    (jmemHeapAlloc config heap size = .ok (none, heap) ∧
      ∀ region ∈ regions jmemAlignment segments, region.2 < alignSize size) ∨
    ∃ before free after later, segments = before ++ .free free :: after ∧ alignSize size ≤ free ∧
      jmemHeapAlloc config heap size = .ok (some (jmemAlignment + length before), later) ∧
      Tiled config later (before ++ (carve free (alignSize size) ++ after)) hidden
        (slack - alignSize size) ∧ KeepsBlocks segments heap.memory later.memory := by
  have isDone : ∀ {front back : List Segment} (later : JmemHeap), segments = front ++ back →
      (if (some (jmemAlignment + length front)).getD 0 % jmemAlignment = 0 then
        pure (some (jmemAlignment + length front), later)
      else throw HeapFault.notAligned : Except HeapFault (Option ℕ × JmemHeap)) =
        .ok (some (jmemAlignment + length front), later) := by
    rintro front back later rfl
    exact if_pos tiled.aligned
  rw [jmemHeapAlloc]
  split_ifs with isFast
  · rcases allocFromFirst_spec tiled isFast.2 with
      ⟨before, free, after, later, isTiling, large, returns, holds, keeps⟩
    rw [returns, isFast.1]
    exact .inr ⟨before, free, after, later, isTiling, large, isDone later isTiling, holds, keeps⟩
  · rcases allocFromList_spec tiled (alignSize_pos positive) (dvd_alignSize size) with
      ⟨returns, none⟩ | ⟨before, free, after, later, isTiling, enough, returns, holds, keeps⟩
    · rw [returns]
      exact .inl ⟨rfl, none⟩
    · rw [returns]
      exact .inr ⟨before, free, after, later, isTiling, enough, isDone later isTiling, holds,
        keeps⟩

/-- The size of the node before the area stays zero, so that nothing is joined with it. -/
theorem firstSize_insertBlock {block previous size : ℕ} (firstSize : regionSize memory 0 = 0)
    (inArea : jmemAlignment ≤ block) (node : previous = 0 ∨ jmemAlignment ≤ previous) :
    regionSize (insertBlockMemory memory block previous size) 0 = 0 := by
  have alignment : jmemAlignment = 8 := rfl
  rcases node with rfl | behind
  · have apart : regionEnd memory 0 ≠ block := by
      rw [regionEnd, firstSize]
      omega
    refine Eq.trans (readWord_congr fun byte lower upper => ?_) firstSize
    rw [insertBlockMemory, if_neg apart, joinNext]
    split_ifs
    · rw [setNextOffset, writeWord_outside (by omega), setRegionSize,
        writeWord_outside (by omega), setNextOffset, writeWord_outside (by omega), setRegionSize,
        writeWord_outside (by omega)]
    · rw [setNextOffset, writeWord_outside (by omega), setNextOffset,
        writeWord_outside (by omega), setRegionSize, writeWord_outside (by omega)]
  · refine Eq.trans (readWord_congr fun byte lower upper => ?_) firstSize
    exact insertBlockMemory_outside (by omega) (by omega)

/-- A used segment becomes free. -/
theorem Tiled.insertBlock (later : JmemHeap) (laterHidden laterSlack : ℕ) {size : ℕ}
    (tiled : Tiled config heap (before ++ .used size :: after) hidden slack)
    (isMemory : later.memory = insertBlockMemory heap.memory (jmemAlignment + length before)
      (lastRegion 0 jmemAlignment before) size)
    (isSkip : later.listSkip = lastRegion 0 jmemAlignment before)
    (accounted : later.allocatedSize + laterHidden = usedLength before + usedLength after)
    (belowLimit : later.allocatedSize ≤ later.limit)
    (limitBelow : later.limit ≤ later.allocatedSize + laterSlack + config.gcLimit) :
    Tiled config later (release before size after) laterHidden laterSlack ∧
      KeepsBlocks (release before size after) heap.memory later.memory := by
  have alignment : jmemAlignment = 8 := rfl
  rcases aligned_append.mp tiled.fits with ⟨beforeFits, restFits⟩
  rcases aligned_cons.mp restFits with ⟨⟨positive, divides⟩, afterFits⟩
  rw [Segment.size_used] at positive divides
  have whole := tiled.whole
  simp only [length_append, length_cons, Segment.size_used] at whole
  rcases release_spec before after jmemAlignment size with
    ⟨isLength, isBlocks, isUsed⟩
  have node := isNode_lastRegion before
  have bounds := lastRegion_bounds 0 jmemAlignment beforeFits
  rcases List.isChain_append.mp tiled.coalesced with ⟨coalescedBefore, coalescedRest, _⟩
  constructor
  · refine ⟨aligned_release positive divides beforeFits afterFits, by omega,
      coalesced_release coalescedBefore coalescedRest.tail, ?_, ?_, ?_, by omega, belowLimit,
      limitBelow⟩
    · rw [isMemory]
      exact firstSize_insertBlock tiled.firstSize (Nat.le_add_right _ _) (bounds.imp_right And.left)
    · rw [isMemory]
      exact tiled.freeList.insertBlock config beforeFits afterFits positive divides
        (by omega) tiled.firstSize
    · rw [isSkip, release]
      rcases mergeLeft_cases before with ⟨isLeft, _⟩ | ⟨front, first, rfl, isLeft⟩
      · rw [isLeft]
        exact (isNode_append node).imp_right .inr
      · refine .inr (.inr ⟨first + size + (mergeRight after).1, ?_⟩)
        rw [isLeft, lastRegion_append, lastRegion, lastRegion, regions_append]
        exact List.mem_append_right _ List.mem_cons_self
  · rintro ⟨block, count⟩ mem byte lower upper
    simp only at lower upper
    rw [isBlocks, List.mem_append] at mem
    have oldMem : (block, count) ∈
        blocks jmemAlignment (before ++ .used size :: after) := by
      rw [blocks_append, blocks]
      exact List.mem_append.mpr (mem.imp_right (List.mem_cons_of_mem _))
    have apartNode := (isNode_append node).apart tiled.fits oldMem
    have large := Nat.le_of_dvd positive divides
    rw [isMemory]
    apply insertBlockMemory_outside
    · omega
    · rcases mem with inBefore | inAfter
      · have inside := blocks_bounds inBefore
        omega
      · have inside := blocks_bounds inAfter
        omega

/-- The assertions of `jmem_heap_insert_block` hold for segments. -/
theorem jmemHeapInsertBlock_eq {block previous size : ℕ} (isAligned : block % jmemAlignment = 0)
    (divides : jmemAlignment ∣ size) :
    jmemHeapInsertBlock heap block previous size = .ok (heap.inserted block previous size) :=
  if_pos ⟨isAligned, Nat.mod_eq_zero_of_dvd divides⟩

/-- A free of a used segment. -/
theorem jmemHeapFreeBlockInternal_spec {size : ℕ}
    (tiled : Tiled config heap (before ++ .used (alignSize size) :: after) hidden slack)
    (positive : 0 < size) (isHidden : hidden ≤ usedLength before + usedLength after) :
    ∃ later, jmemHeapFreeBlockInternal config heap (jmemAlignment + length before) size =
        .ok later ∧ Tiled config later (release before (alignSize size) after) hidden slack ∧
      KeepsBlocks (release before (alignSize size) after) heap.memory later.memory := by
  have alignment : jmemAlignment = 8 := rfl
  have accounted := tiled.accounted
  simp only [usedLength_append, usedLength] at accounted
  have large := alignSize_pos positive
  have inHeap := tiled.inHeap
  have notBad : ¬(heap.limit < heap.allocatedSize ∨ heap.allocatedSize = 0) := by
    have belowLimit := tiled.belowLimit
    omega
  have isPointer : jmemIsHeapPointer config (jmemAlignment + length before) = true :=
    isHeapPointer_of (by omega) (by omega)
  rcases released_spec tiled (alignSize size) with ⟨atLeast, below⟩
  rw [jmemHeapFreeBlockInternal, if_neg (by omega), if_neg notBad,
    if_neg (by rw [isPointer, tiled.aligned]; simp), jmemHeapFindPrev_spec tiled]
  simp only [bind, Except.bind]
  rw [jmemHeapInsertBlock_eq tiled.aligned (dvd_alignSize size)]
  simp only
  rw [if_pos (by exact atLeast)]
  refine ⟨_, rfl, ?_⟩
  refine tiled.insertBlock _ hidden slack rfl rfl ?_ atLeast ?_
  · simp only [JmemHeap.inserted, JmemHeap.released]
    omega
  · simp only [JmemHeap.inserted, JmemHeap.released] at below ⊢
    omega

/-- Writes to used segments do not change the tiling. -/
theorem Tiled.write (tiled : Tiled config heap segments hidden slack)
    (same : ∀ byte, (∀ block ∈ blocks jmemAlignment segments,
      byte < block.1 ∨ block.1 + block.2 ≤ byte) → memory byte = heap.memory byte) :
    Tiled config { heap with memory } segments hidden slack := by
  have alignment : jmemAlignment = 8 := rfl
  have first : ∀ byte, byte < jmemAlignment → memory byte = heap.memory byte := by
    intro byte inFirst
    refine same byte fun block mem => .inl ?_
    have bounds := blocks_bounds mem
    omega
  refine ⟨tiled.fits, tiled.whole, tiled.coalesced, ?_, ?_, tiled.skip, tiled.accounted,
    tiled.belowLimit, tiled.limitBelow⟩
  · refine Eq.trans (readWord_congr fun byte lower upper => first byte ?_) tiled.firstSize
    omega
  · refine tiled.freeList.congr_regions tiled.fits
      (readWord_congr fun byte lower upper => first byte (by omega)) ?_
    rintro ⟨region, large⟩ regionMem byte lower upper
    refine same byte fun block mem => ?_
    have apart := blocks_apart_regions mem regionMem
    simp only at lower upper
    omega

/-- The heap that the engine starts with is one free region. -/
theorem tiled_jmemHeapInit (memory : Memory) :
    Tiled config (jmemHeapInit config memory) [.free (config.heapSize - jmemAlignment)] 0 0 := by
  have alignment : jmemAlignment = 8 := rfl
  have small := config.small
  have hasArea := config.hasArea
  refine ⟨?_, ?_, List.isChain_singleton _, ?_, ⟨⟨?_, ?_, trivial⟩, ?_⟩, .inl rfl, rfl,
    Nat.zero_le _, ?_⟩
  · refine aligned_cons.mpr ⟨⟨?_, ?_⟩, nofun⟩
    · rw [Segment.size_free]
      omega
    · exact Nat.dvd_sub config.aligned (Nat.dvd_refl _)
  · simp only [length_cons, Segment.size_free, length_nil]
    omega
  · rw [jmemHeapInit, regionSize_setNextOffset (.inr le_rfl),
      regionSize_setRegionSize (by omega)]
  · exact nextOffset_setNextOffset (by rw [offsetFromAddr]; omega)
  · rw [jmemHeapInit, regionSize_setNextOffset (by omega)]
    exact (readWord_writeWord_apart (by omega)).trans ((regionSize_setNextOffset (.inr le_rfl)).trans
      (regionSize_setRegionSize (by omega)))
  · rw [lastRegion, lastRegion, jmemHeapInit, nextOffset_setNextOffset_apart (by omega),
      nextOffset_setRegionSize (by omega), nextOffset_setNextOffset (by
        rw [jmemHeapEndOfList]
        omega)]
  · exact Nat.le_add_left _ _

end Cmsframe
