import Cmsframe.Memory.Store

/-!
# Blocks that change their size

`jmem_heap_realloc_block` leaves a block where it is, or takes the free memory behind it or in
front of it, or moves it. In each case the bytes of the block stay the same, as far as they are
in the new block, and so do those of all other blocks.
-/

namespace Cmsframe

open ByteMemory Tiling

variable {config : JmemConfig} {heap later : JmemHeap} {store : Store} {memory : Memory}
  {segments before after : List Segment} {hidden slack size required : ℕ} {block : StoreBlock}

/-- Where a used segment is divided does not matter. -/
theorem tiled_used {other : ℕ} (positive : 0 < size) (divides : jmemAlignment ∣ size)
    (otherPositive : 0 < other) (otherDivides : jmemAlignment ∣ other) :
    Tiled config heap (before ++ .used size :: .used other :: after) hidden slack ↔
      Tiled config heap (before ++ .used (size + other) :: after) hidden slack := by
  have fits : Fits (before ++ .used size :: .used other :: after) ↔
      Fits (before ++ .used (size + other) :: after) := by
    have sum : 0 < size + other ∧ jmemAlignment ∣ size + other :=
      ⟨Nat.add_pos_left positive other, Nat.dvd_add divides otherDivides⟩
    simp only [aligned_append, aligned_cons, Segment.size_used, positive, divides, otherPositive,
      otherDivides, sum, true_and, and_true]
  have sameLength : length (before ++ .used size :: .used other :: after) =
      length (before ++ .used (size + other) :: after) := by
    simp only [length_append, length_cons, Segment.size_used, Nat.add_assoc]
  have sameRegions : regions jmemAlignment (before ++ .used size :: .used other :: after) =
      regions jmemAlignment (before ++ .used (size + other) :: after) := by
    simp only [regions_append, regions, Nat.add_assoc]
  have sameUsage : usedLength (before ++ .used size :: .used other :: after) =
      usedLength (before ++ .used (size + other) :: after) := by
    simp only [usedLength_append, usedLength, Nat.add_assoc]
  constructor
  · rintro ⟨isFits, whole, coalesced, firstSize, freeList, skip, accounted, below, limit⟩
    exact ⟨fits.mp isFits, sameLength ▸ whole, (coalesced_used size other).mp coalesced, firstSize,
      (freeList_used size other).mp freeList, sameRegions ▸ skip, sameUsage ▸ accounted, below,
      limit⟩
  · rintro ⟨isFits, whole, coalesced, firstSize, freeList, skip, accounted, below, limit⟩
    exact ⟨fits.mpr isFits, sameLength ▸ whole, (coalesced_used size other).mpr coalesced,
      firstSize, (freeList_used size other).mpr freeList, sameRegions ▸ skip, sameUsage ▸ accounted,
      below, limit⟩

/-- The back of a free region is taken. -/
theorem Tiled.takeBack (tiled : Tiled config heap (before ++ .free size :: after) hidden slack)
    (positive : 0 < required) (divides : jmemAlignment ∣ required) (less : required < size)
    (isMemory : later.memory = setRegionSize heap.memory (jmemAlignment + length before)
      (size - required))
    (isSkip : later.listSkip = jmemAlignment + length before)
    (isAllocated : later.allocatedSize = heap.allocatedSize + required)
    (belowLimit : later.allocatedSize ≤ later.limit)
    (limitBelow : later.limit ≤ max heap.limit (later.allocatedSize + config.gcLimit)) :
    Tiled config later (before ++ .free (size - required) :: .used required :: after) hidden
        (slack - required) ∧
      KeepsBlocks (before ++ .free size :: after) heap.memory later.memory := by
  have alignment : jmemAlignment = 8 := rfl
  have small := config.small
  have oldLimit := tiled.limitBelow
  rcases aligned_append.mp tiled.fits with ⟨beforeFits, restFits⟩
  rcases aligned_cons.mp restFits with ⟨⟨_, sizeDivides⟩, afterFits⟩
  rw [Segment.size_free] at sizeDivides
  have room := add_jmemAlignment_le divides sizeDivides less
  have whole := tiled.whole
  have accounted := tiled.accounted
  simp only [length_append, length_cons, Segment.size_free] at whole
  simp only [usedLength_append, usedLength] at accounted
  have outside : ∀ byte, byte < jmemAlignment + length before ∨
      jmemAlignment + length before + 8 ≤ byte → later.memory byte = heap.memory byte := by
    intro byte notHeader
    rw [isMemory, setRegionSize, writeWord_outside (by omega)]
  rcases (freeList_append _ _ _ _).mp tiled.freeList with
    ⟨linked, ⟨link, isSize, afterLinked⟩, ends⟩
  rcases List.isChain_append.mp tiled.coalesced with ⟨coalescedBefore, coalescedRest, seam⟩
  rcases List.isChain_cons.mp coalescedRest with ⟨_, coalescedAfter⟩
  constructor
  · refine ⟨?_, ?_, ?_, ?_, ?_, .inr (.inr ⟨size - required, ?_⟩), ?_, belowLimit, by omega⟩
    · refine aligned_append.mpr ⟨beforeFits, aligned_cons.mpr ⟨⟨?_, ?_⟩, aligned_cons.mpr
        ⟨⟨positive, divides⟩, afterFits⟩⟩⟩
      · rw [Segment.size_free]
        omega
      · exact Nat.dvd_sub sizeDivides divides
    · simp only [length_append, length_cons, Segment.size_free, Segment.size_used]
      omega
    · refine coalescedBefore.append (List.isChain_cons_cons.mpr ⟨.inr rfl, List.isChain_cons.mpr
        ⟨fun _ _ => .inl rfl, coalescedAfter⟩⟩) fun last isLast first isFirst => ?_
      cases isFirst
      exact seam last isLast (.free size) rfl
    · refine Eq.trans (readWord_congr fun byte lower upper => outside byte ?_) tiled.firstSize
      omega
    · have bounds := lastRegion_bounds 0 jmemAlignment beforeFits
      have frontLinked : Linked later.memory 0 jmemAlignment before := by
        refine linked.congr beforeFits (Nat.zero_add _).le fun byte range _ => outside byte ?_
        omega
      have frontLink : nextOffset later.memory (lastRegion 0 jmemAlignment before) =
          offsetFromAddr (jmemAlignment + length before) := by
        refine Eq.trans (readWord_congr fun byte lower upper => outside byte ?_) link
        omega
      have header : regionSize later.memory (jmemAlignment + length before) = size - required := by
        rw [isMemory]
        exact regionSize_setRegionSize (by omega)
      have next : nextOffset later.memory (jmemAlignment + length before) =
          nextOffset heap.memory (jmemAlignment + length before) := by
        rw [isMemory]
        exact nextOffset_setRegionSize (by omega)
      have back := FreeList.congr afterFits next (fun byte lower _ => outside byte (by omega))
        ⟨afterLinked, ends⟩
      have sum : jmemAlignment + length before + size =
        jmemAlignment + length before + (size - required) + required := by omega
      rw [sum] at back
      exact (freeList_append _ _ _ _).mpr ⟨frontLinked, ⟨frontLink, header, back.1⟩, back.2⟩
    · rw [isSkip, regions_append]
      exact List.mem_append_right _ List.mem_cons_self
    · simp only [usedLength_append, usedLength]
      omega
  · rintro ⟨block, count⟩ mem byte lower upper
    have regionMem : (jmemAlignment + length before, size) ∈
        regions jmemAlignment (before ++ .free size :: after) := by
      rw [regions_append]
      exact List.mem_append_right _ List.mem_cons_self
    have apart := blocks_apart_regions mem regionMem
    simp only at lower upper
    exact outside byte (by omega)

/-- The free memory behind a block is taken as an allocation takes it. -/
theorem extendAtEnd_eq {previous next : ℕ} :
    extendAtEnd memory previous next required =
      if required ≤ regionSize memory next then some (takeFront memory previous next required)
      else none := by
  rw [extendAtEnd, takeFront]
  by_cases enough : required ≤ regionSize memory next
  · rw [if_pos enough, if_pos enough]
    by_cases isExact : required = regionSize memory next
    · rw [if_pos isExact, if_neg (by omega)]
    · rw [if_neg isExact, if_pos (by omega)]
      simp only [setRegionSize, setNextOffset]
      rw [writeWord_comm (.inr le_rfl)]
  · rw [if_neg enough, if_neg enough]

/-- A block gets the front of the free region behind it. -/
theorem Tiled.extendAtEnd {free : ℕ}
    (tiled : Tiled config heap (before ++ .used size :: .free free :: after) hidden slack)
    (positive : 0 < required) (divides : jmemAlignment ∣ required) (enough : required ≤ free)
    (isMemory : later.memory = Cmsframe.takeFront heap.memory (lastRegion 0 jmemAlignment before)
      (jmemAlignment + length before + size) required)
    (isSkip : later.listSkip = lastRegion 0 jmemAlignment before)
    (isAllocated : later.allocatedSize = heap.allocatedSize + required)
    (belowLimit : later.allocatedSize ≤ later.limit)
    (limitBelow : later.limit ≤ max heap.limit (later.allocatedSize + config.gcLimit)) :
    ∃ rest, Tiled config later (before ++ .used (size + required) :: rest) hidden
        (slack - required) ∧
      blocks (jmemAlignment + length before + (size + required)) rest =
        blocks (jmemAlignment + length before + size + free) after ∧
      KeepsBlocks (before ++ .used size :: .free free :: after) heap.memory later.memory := by
  have sizes := (aligned_cons.mp (aligned_append.mp tiled.fits).2).1
  rw [Segment.size_used] at sizes
  have whole : before ++ .used size :: .free free :: after =
      (before ++ [.used size]) ++ .free free :: after := by simp
  have isLast : lastRegion 0 jmemAlignment (before ++ [.used size]) =
      lastRegion 0 jmemAlignment before := by rw [lastRegion_append, lastRegion, lastRegion]
  have isLength : length (before ++ [.used size]) = length before + size := by simp
  rw [whole] at tiled
  rcases tiled.takeFront positive divides enough (by rwa [isLast, isLength, ← Nat.add_assoc])
    (isSkip ▸ (isNode_append (isNode_append (isNode_lastRegion before))).imp_right .inr)
    isAllocated belowLimit limitBelow with ⟨laterTiled, keeps⟩
  rw [← whole] at keeps
  rw [List.append_assoc, List.singleton_append, carve] at laterTiled
  split_ifs at laterTiled with isLarger
  · refine ⟨.free (free - required) :: after, ?_, ?_, keeps⟩
    · exact (tiled_used sizes.1 sizes.2 positive divides).mp laterTiled
    · rw [blocks]
      congr 1
      omega
  · refine ⟨after, (tiled_used sizes.1 sizes.2 positive divides).mp laterTiled, ?_, keeps⟩
    congr 1
    omega

/-- A block gets the back of the free region in front of it, or all of it. -/
theorem Tiled.extendAtFront (later : JmemHeap) {free : ℕ}
    (tiled : Tiled config heap (before ++ .free free :: .used size :: after) hidden slack)
    (positive : 0 < required) (divides : jmemAlignment ∣ required) (enough : required ≤ free)
    (isMemory : later.memory =
      if required = free then
        setNextOffset heap.memory (lastRegion 0 jmemAlignment before)
          (nextOffset heap.memory (jmemAlignment + length before))
      else
        setRegionSize heap.memory (jmemAlignment + length before) (free - required))
    (isSkip : later.listSkip =
      if required = free then lastRegion 0 jmemAlignment before
      else jmemAlignment + length before)
    (isAllocated : later.allocatedSize = heap.allocatedSize + required)
    (belowLimit : later.allocatedSize ≤ later.limit)
    (limitBelow : later.limit ≤ max heap.limit (later.allocatedSize + config.gcLimit)) :
    ∃ front, Tiled config later (front ++ .used (required + size) :: after) hidden
        (slack - required) ∧
      blocks jmemAlignment front = blocks jmemAlignment before ∧
      length front = length before + (free - required) ∧
      KeepsBlocks (before ++ .free free :: .used size :: after) heap.memory later.memory := by
  have sizes := (aligned_cons.mp (aligned_cons.mp (aligned_append.mp tiled.fits).2).2).1
  have isSize : regionSize heap.memory (jmemAlignment + length before) = free :=
    ((freeList_append _ _ _ _).mp tiled.freeList).2.1.2.1
  rw [Segment.size_used] at sizes
  by_cases isExact : required = free
  · rw [if_pos isExact] at isMemory isSkip
    have isTaken : later.memory = Cmsframe.takeFront heap.memory (lastRegion 0 jmemAlignment before)
        (jmemAlignment + length before) required := by
      rw [Cmsframe.takeFront, if_neg (by omega), isMemory]
    rcases tiled.takeFront positive divides enough isTaken
      (isSkip ▸ (isNode_append (isNode_lastRegion before)).imp_right .inr) isAllocated belowLimit
      limitBelow with ⟨laterTiled, keeps⟩
    rw [carve, if_neg (by omega), List.singleton_append] at laterTiled
    exact ⟨before, (tiled_used positive divides sizes.1 sizes.2).mp laterTiled, rfl, by omega,
      keeps⟩
  · rw [if_neg isExact] at isMemory isSkip
    rcases tiled.takeBack positive divides (by omega) isMemory isSkip isAllocated belowLimit
      limitBelow with ⟨laterTiled, keeps⟩
    have whole : before ++ .free (free - required) :: .used required :: .used size :: after =
        (before ++ [.free (free - required)]) ++ .used required :: .used size :: after := by simp
    rw [whole] at laterTiled
    refine ⟨before ++ [.free (free - required)],
      (tiled_used positive divides sizes.1 sizes.2).mp laterTiled, ?_, by simp, keeps⟩
    rw [blocks_append, blocks, blocks, List.append_nil]

/-- The bytes of a block are in the first bytes at an address. -/
def HoldsAt (memory : Memory) (address : ℕ) (block : StoreBlock) (size : ℕ) : Prop :=
  ∀ index < block.size, index < size → memory (address + index) = block.contents index

/-- A tiling with a block at its place represents the store with it. -/
theorem Tiled.represents {address : ℕ}
    (tiled : Tiled config heap (before ++ .used (alignSize size) :: after) 0 slack)
    (isAddress : address = jmemAlignment + length before)
    (isBlocks : (store.map StoreBlock.extent).Perm (blocks jmemAlignment before ++
      blocks (jmemAlignment + length before + alignSize size) after)) (positive : 0 < size)
    (stored : ∀ other ∈ store, 0 < other.size ∧ other.StoredIn heap.memory) :
    Represents config heap (freshBlock heap.memory address size :: store) 0 slack := by
  refine ⟨_, tiled, ?_, fun other mem => ?_⟩
  · rw [blocks_append, blocks, List.map_cons, ← isAddress]
    rw [← isAddress] at isBlocks
    exact (isBlocks.cons _).trans List.perm_middle.symm
  · rcases List.mem_cons.mp mem with rfl | inStore
    · exact ⟨positive, fun index _ => rfl⟩
    · exact stored other inStore

/-- The memory behind a block is taken for it. -/
theorem Represents.extendAtEnd {free : ℕ}
    (tiled : Tiled config heap
      (before ++ .used (alignSize block.size) :: .free free :: after) 0 0)
    (isAddress : block.address = jmemAlignment + length before)
    (isBlocks : (store.map StoreBlock.extent).Perm (blocks jmemAlignment before ++
      blocks (jmemAlignment + length before + alignSize block.size + free) after))
    (original : block.StoredIn heap.memory)
    (stored : ∀ other ∈ store, 0 < other.size ∧ other.StoredIn heap.memory) (positive : 0 < size)
    (larger : alignSize block.size < alignSize size)
    (enough : alignSize size - alignSize block.size ≤ free)
    (isMemory : later.memory = takeFront heap.memory (lastRegion 0 jmemAlignment before)
      (jmemAlignment + length before + alignSize block.size)
      (alignSize size - alignSize block.size))
    (isSkip : later.listSkip = lastRegion 0 jmemAlignment before)
    (isAllocated : later.allocatedSize =
      heap.allocatedSize + (alignSize size - alignSize block.size))
    (limits : later.allocatedSize ≤ later.limit ∧
      later.limit ≤ max heap.limit (later.allocatedSize + config.gcLimit)) :
    Represents config later (freshBlock later.memory block.address size :: store) 0 0 ∧
      HoldsAt later.memory block.address block size := by
  have divides := Nat.dvd_sub (dvd_alignSize size) (dvd_alignSize block.size)
  have sum : alignSize block.size + (alignSize size - alignSize block.size) = alignSize size := by
    omega
  rcases tiled.extendAtEnd (by omega) divides enough isMemory isSkip isAllocated limits.1 limits.2
    with ⟨rest, laterTiled, isRest, keeps⟩
  rw [sum, Nat.zero_sub] at laterTiled
  rw [sum] at isRest
  rw [← isRest] at isBlocks
  have oldBlocks : ∀ extent, extent ∈ blocks jmemAlignment before ∨
      extent ∈ blocks (jmemAlignment + length before + alignSize size) rest ∨
      extent = block.extent →
        extent ∈ blocks jmemAlignment
          (before ++ .used (alignSize block.size) :: .free free :: after) := by
    intro extent cases
    rw [blocks_append, blocks, blocks, ← isRest, ← isAddress, List.mem_append, List.mem_cons]
    rcases cases with inBefore | inRest | isThis
    · exact .inl inBefore
    · exact .inr (.inr (isAddress ▸ inRest))
    · exact .inr (.inl isThis)
  refine ⟨laterTiled.represents isAddress isBlocks positive fun other mem => ?_, ?_⟩
  · refine ⟨(stored other mem).1, (stored other mem).2.keep keeps (oldBlocks _ ?_)⟩
    have inBlocks := isBlocks.mem_iff.mp (List.mem_map_of_mem mem)
    exact (List.mem_append.mp inBlocks).imp_right .inl
  · exact fun index inside _ => original.keep keeps (oldBlocks _ (.inr (.inr rfl))) index inside

/-- The memory in front of a block is taken for it, and its bytes are moved there. -/
theorem Represents.extendAtFront {free : ℕ}
    (tiled : Tiled config heap
      (before ++ .free free :: .used (alignSize block.size) :: after) 0 0)
    (isAddress : block.address = jmemAlignment + length before + free)
    (isBlocks : (store.map StoreBlock.extent).Perm (blocks jmemAlignment before ++
      blocks (jmemAlignment + length before + free + alignSize block.size) after))
    (original : block.StoredIn heap.memory)
    (stored : ∀ other ∈ store, 0 < other.size ∧ other.StoredIn heap.memory) (positive : 0 < size)
    (larger : alignSize block.size < alignSize size)
    (isRequired : required = alignSize size - alignSize block.size) (enough : required ≤ free)
    (isExtended : memory =
      if required = free then
        setNextOffset heap.memory (lastRegion 0 jmemAlignment before)
          (nextOffset heap.memory (jmemAlignment + length before))
      else
        setRegionSize heap.memory (jmemAlignment + length before) (free - required))
    (isMemory : later.memory =
      copyBytes memory (block.address - required) block.address block.size)
    (isSkip : later.listSkip =
      if required = free then lastRegion 0 jmemAlignment before
      else jmemAlignment + length before)
    (isAllocated : later.allocatedSize = heap.allocatedSize + required)
    (limits : later.allocatedSize ≤ later.limit ∧
      later.limit ≤ max heap.limit (later.allocatedSize + config.gcLimit)) :
    Represents config later
        (freshBlock later.memory (block.address - required) size :: store) 0 0 ∧
      HoldsAt later.memory (block.address - required) block size := by
  have divides := Nat.dvd_sub (dvd_alignSize size) (dvd_alignSize block.size)
  rw [← isRequired] at divides
  have sum : required + alignSize block.size = alignSize size := by omega
  rcases tiled.extendAtFront { later with memory } (by omega) divides enough
    isExtended isSkip isAllocated limits.1 limits.2 with
      ⟨front, middleTiled, isFront, frontLength, keeps⟩
  rw [sum, Nat.zero_sub] at middleTiled
  have isTarget : block.address - required = jmemAlignment + length front := by omega
  have end_eq : jmemAlignment + length before + free + alignSize block.size =
    jmemAlignment + length front + alignSize size := by omega
  have oldBlocks : ∀ extent, extent ∈ blocks jmemAlignment before ∨
      extent ∈ blocks (jmemAlignment + length before + free + alignSize block.size) after ∨
      extent = block.extent →
        extent ∈ blocks jmemAlignment
          (before ++ .free free :: .used (alignSize block.size) :: after) := by
    intro extent cases
    rw [blocks_append, blocks, blocks, ← isAddress, List.mem_append, List.mem_cons]
    rcases cases with inBefore | inAfter | isThis
    · exact .inl inBefore
    · exact .inr (.inr (isAddress ▸ inAfter))
    · exact .inr (.inl isThis)
  have kept : ∀ other ∈ store, 0 < other.size ∧ other.StoredIn memory := by
    intro other mem
    refine ⟨(stored other mem).1, (stored other mem).2.keep keeps (oldBlocks _ ?_)⟩
    have inBlocks := isBlocks.mem_iff.mp (List.mem_map_of_mem mem)
    exact (List.mem_append.mp inBlocks).imp_right .inl
  rw [end_eq, ← isFront] at isBlocks
  have large := le_alignSize block.size
  have middle := middleTiled.represents isTarget isBlocks positive kept
  constructor
  · refine middle.overwrite later.memory fun byte outside => ?_
    simp only [freshBlock] at outside
    rw [isMemory]
    exact copyBytes_outside (by omega)
  · intro index inside _
    rw [isMemory, copyBytes_inside inside]
    exact original.keep keeps (oldBlocks _ (.inr (.inr rfl))) index inside

section Move

variable {reclaimer : Reclaimer Store}

/-- A block is moved to where there is room for it. -/
theorem Represents.move (lawful : reclaimer.Lawful)
    (represents : Represents config heap (block :: store) 0 0) (positive : 0 < size)
    (larger : alignSize block.size ≤ alignSize size) :
    (moveBlock config reclaimer store heap block.address block.size size = .error .outOfMemory ∧
      ¬Room config (block :: reclaimer.afterAll [.low, .high] store) (alignSize size)) ∨
    ∃ address final later, moveBlock config reclaimer store heap block.address block.size size =
        .ok (address, final, later) ∧
      Represents config later (freshBlock later.memory address size :: final) 0 0 ∧
      HoldsAt later.memory address block size := by
  have accounted := represents.accounted
  have reduced : Represents config
      { heap with allocatedSize := heap.allocatedSize - alignSize block.size }
      ([block] ++ store) (alignSize block.size) (alignSize block.size) := by
    rw [storeUsage_cons] at accounted
    rcases represents with ⟨segments, tiled, isBlocks, stored⟩
    have isUsed := tiled.accounted
    refine ⟨segments, ⟨tiled.fits, tiled.whole, tiled.coalesced, tiled.firstSize, tiled.freeList,
      tiled.skip, ?_, ?_, ?_⟩, isBlocks, stored⟩ <;> simp only <;> omega
  rw [moveBlock]
  rcases reduced.gcAndAlloc [block] lawful true positive (Nat.le_refl _) with ⟨noRoom, _, _, fails⟩ |
    ⟨_, address, final, middle, returns, middleRepresents⟩
  · rw [fails]
    exact .inl ⟨rfl, noRoom⟩
  · right
    have covers : ∀ byte, byte < address ∨ address + alignSize size ≤ byte →
        copyBytes middle.memory address block.address block.size byte = middle.memory byte := by
      intro byte outside
      have large := le_alignSize block.size
      exact copyBytes_outside (by omega)
    have stored : ∀ other ∈ final, 0 < other.size ∧
        other.StoredIn (copyBytes middle.memory address block.address block.size) := by
      rcases middleRepresents.overwrite _ covers with ⟨_, _, _, copied⟩
      exact fun other mem => copied other (List.mem_cons_of_mem _ (List.mem_append_right _ mem))
    rcases (middleRepresents.perm (List.Perm.swap _ _ _)).split with
      ⟨before, after, tiled, isAddress, isBlocks, original, _⟩
    have target : (address, alignSize size) ∈ blocks jmemAlignment before ++
        blocks (jmemAlignment + length before + alignSize block.size) after :=
      isBlocks.mem_iff.mp List.mem_cons_self
    have copiedTiled : Tiled config
        { middle with memory := copyBytes middle.memory address block.address block.size }
        (before ++ .used (alignSize block.size) :: after) (alignSize block.size)
        (alignSize block.size - alignSize size) := by
      refine tiled.write fun byte outside => covers byte (outside (address, alignSize size) ?_)
      rw [blocks_append, blocks]
      exact List.mem_append.mpr
        ((List.mem_append.mp target).imp_right (List.mem_cons_of_mem _))
    have isUsed := tiled.accounted
    have laterLimit := tiled.limitBelow
    simp only [usedLength_append, usedLength] at isUsed
    rcases copiedTiled.insertBlock (JmemHeap.inserted
        { middle with memory := copyBytes middle.memory address block.address block.size }
        block.address (lastRegion 0 jmemAlignment before) (alignSize block.size)) 0 0
      (by rw [isAddress]; rfl) rfl (by simp only [JmemHeap.inserted]; omega) tiled.belowLimit
      (by simp only [JmemHeap.inserted]; omega) with ⟨laterTiled, keeps⟩
    rw [← (release_spec _ _ jmemAlignment (alignSize block.size)).2.1] at isBlocks target
    refine ⟨address, final, _, ?_, ⟨_, laterTiled, isBlocks, ?_⟩, ?_⟩
    · rw [returns]
      simp only [bind, Except.bind, pure, Except.pure]
      rw [isAddress, jmemHeapFindPrev_spec tiled]
      simp only
      rw [jmemHeapInsertBlock_eq tiled.aligned (dvd_alignSize block.size)]
    · intro other mem
      rcases List.mem_cons.mp mem with rfl | inFinal
      · exact ⟨positive, fun index _ => rfl⟩
      · exact ⟨(stored other inFinal).1, (stored other inFinal).2.keep keeps
          (isBlocks.mem_iff.mp (List.mem_map_of_mem (List.mem_cons_of_mem _ inFinal)))⟩
    · intro index inside _
      have large := le_alignSize block.size
      have inTarget : address + index < address + alignSize size := by omega
      rw [keeps _ target _ (Nat.le_add_right _ _) inTarget]
      exact (copyBytes_inside inside).trans (original.2 index inside)

/-- A block is extended in place or moved. -/
theorem Represents.extendOrMove (lawful : reclaimer.Lawful)
    (represents : Represents config heap (block :: store) 0 0) (positive : 0 < size)
    (larger : alignSize block.size < alignSize size) :
    (Cmsframe.extendOrMove config reclaimer store heap block.address block.size size =
        .error .outOfMemory ∧
      ¬Room config (block :: reclaimer.afterAll [.low, .high] store) (alignSize size)) ∨
    ∃ address final later,
      Cmsframe.extendOrMove config reclaimer store heap block.address block.size size =
        .ok (address, final, later) ∧
      Represents config later (freshBlock later.memory address size :: final) 0 0 ∧
      HoldsAt later.memory address block size := by
  have alignment : jmemAlignment = 8 := rfl
  have small := config.small
  have moved := represents.move lawful positive larger.le
  rcases represents.split with ⟨before, after, tiled, isAddress, isBlocks, original, stored⟩
  rcases (freeList_append _ _ _ _).mp tiled.freeList with ⟨linked, afterList⟩
  have inHeap := tiled.inHeap
  rw [length_cons, Segment.size_used] at inHeap
  have found := jmemHeapFindPrev_spec tiled
  rw [← isAddress] at found
  have limits := allocated_spec tiled (alignSize size - alignSize block.size)
  rw [Cmsframe.extendOrMove, found]
  simp only [bind, Except.bind]
  split_ifs with isNext isFront
  · -- The next free region is right behind the block.
    have afterFree : FreeList heap.memory (lastRegion 0 jmemAlignment before)
      (jmemAlignment + length before + alignSize block.size) after := afterList
    rcases afterFree.next_cases with ⟨ends, _⟩ | ⟨front, free, rest, rfl, _, _, link, isSize⟩
    · rw [ends, addrFromOffset, jmemHeapEndOfList] at isNext
      omega
    · have isNode : addrFromOffset (nextOffset heap.memory (lastRegion 0 jmemAlignment before)) =
          jmemAlignment + length before + alignSize block.size + length front := by
        rw [link, addrFromOffset_offsetFromAddr (by omega)]
      have isEmpty : front = [] := by
        have fits := (aligned_cons.mp (aligned_append.mp tiled.fits).2).2
        exact Aligned.eq_nil (aligned_append.mp fits).1 (by omega)
      subst isEmpty
      rw [length_nil, Nat.add_zero] at isNode isSize
      rw [List.nil_append] at tiled isBlocks
      rw [extendAtEnd_eq, isNode, isSize]
      by_cases enough : alignSize size - alignSize block.size ≤ free
      · rw [if_pos enough]
        rw [blocks] at isBlocks
        exact .inr ⟨block.address, store, _, rfl, Represents.extendAtEnd tiled isAddress isBlocks
          original.2 stored positive larger enough rfl rfl rfl limits⟩
      · rw [if_neg enough]
        exact moved
  · -- The free region before the block ends where the block begins.
    rcases lastRegion_cases 0 jmemAlignment before with ⟨isFirst, _⟩ |
      ⟨front, free, back, rfl, isLast, _⟩
    · rw [isFirst, regionEnd, tiled.firstSize] at isFront
      omega
    · have isSize : regionSize heap.memory (jmemAlignment + length front) = free :=
        ((linked_append _ _ _ _).mp linked).2.2.1
      have isEmpty : back = [] := by
        have fits := (aligned_append.mp tiled.fits).1
        have backFits := (aligned_cons.mp (aligned_append.mp fits).2).2
        rw [isLast, regionEnd, isSize, isAddress, length_append, length_cons,
          Segment.size_free] at isFront
        exact backFits.eq_nil (by omega)
      subst isEmpty
      simp only [List.append_assoc, List.singleton_append] at tiled
      rw [length_append, length_cons, Segment.size_free, length_nil, Nat.add_zero,
        ← Nat.add_assoc] at isAddress isBlocks
      rw [blocks_append, blocks, blocks, List.append_nil] at isBlocks
      have foundFront := jmemHeapFindPrev_spec tiled
      rw [isLast, Cmsframe.extendAtFront, isSize, offsetFromAddr_addrFromOffset]
      by_cases enough : alignSize size - alignSize block.size ≤ free
      · right
        rw [if_pos enough]
        by_cases isExact : alignSize size - alignSize block.size = free
        · rw [if_pos isExact, foundFront]
          exact ⟨_, store, _, rfl, Represents.extendAtFront tiled isAddress isBlocks original.2
            stored positive larger rfl enough (if_pos isExact).symm rfl (if_pos isExact).symm rfl
            limits⟩
        · rw [if_neg isExact]
          exact ⟨_, store, _, rfl, Represents.extendAtFront tiled isAddress isBlocks original.2
            stored positive larger rfl enough (if_neg isExact).symm rfl (if_neg isExact).symm rfl
            limits⟩
      · rw [if_neg enough]
        exact moved
  · exact moved

/-- The back of a block is freed. -/
theorem Represents.shrink
    (tiled : Tiled config heap (before ++ .used (alignSize block.size) :: after) 0 0)
    (isAddress : block.address = jmemAlignment + length before)
    (isBlocks : (store.map StoreBlock.extent).Perm (blocks jmemAlignment before ++
      blocks (jmemAlignment + length before + alignSize block.size) after))
    (original : block.StoredIn heap.memory)
    (stored : ∀ other ∈ store, 0 < other.size ∧ other.StoredIn heap.memory) (positive : 0 < size)
    (smaller : alignSize size < alignSize block.size)
    (isLater : later = (heap.inserted (block.address + alignSize size)
      (lastRegion 0 jmemAlignment before) (alignSize block.size - alignSize size)).released config
        (alignSize block.size - alignSize size)) :
    Represents config later (freshBlock later.memory block.address size :: store) 0 0 ∧
      HoldsAt later.memory block.address block size := by
  have divides := Nat.dvd_sub (dvd_alignSize block.size) (dvd_alignSize size)
  have newPositive := alignSize_pos positive
  have sum : alignSize size + (alignSize block.size - alignSize size) = alignSize block.size := by
    omega
  have belowLimit := tiled.belowLimit
  have accounted := tiled.accounted
  simp only [usedLength_append, usedLength] at accounted
  rw [← sum] at tiled
  have divided := (tiled_used newPositive (dvd_alignSize size) (by omega) divides).mpr tiled
  have whole : before ++ .used (alignSize size) ::
      .used (alignSize block.size - alignSize size) :: after = (before ++ [.used (alignSize size)]) ++
        .used (alignSize block.size - alignSize size) :: after := by simp
  have isLast : lastRegion 0 jmemAlignment (before ++ [.used (alignSize size)]) =
      lastRegion 0 jmemAlignment before := by rw [lastRegion_append, lastRegion, lastRegion]
  have isLength : length (before ++ [.used (alignSize size)]) = length before + alignSize size := by
    simp
  rw [whole] at divided
  rcases released_spec tiled (alignSize block.size - alignSize size) with ⟨atLeast, below⟩
  rcases divided.insertBlock later 0 0
    (by rw [isLater, isLast, isLength, isAddress, Nat.add_assoc]; rfl)
    (by rw [isLater, isLast]; rfl)
    (by
      rw [isLater, usedLength_append, usedLength, usedLength]
      simp only [JmemHeap.released, JmemHeap.inserted]
      omega)
    (by rw [isLater]; exact atLeast) (by rw [isLater]; exact below.le) with ⟨laterTiled, keeps⟩
  have laterBlocks := (release_spec (before ++ [.used (alignSize size)]) after jmemAlignment
    (alignSize block.size - alignSize size)).2.1
  rw [isLength, blocks_append, blocks, blocks, ← isAddress] at laterBlocks
  have back : jmemAlignment + (length before + alignSize size) +
      (alignSize block.size - alignSize size) =
        jmemAlignment + length before + alignSize block.size := by omega
  rw [back] at laterBlocks
  have isPerm : ((freshBlock later.memory block.address size :: store).map StoreBlock.extent).Perm
      (blocks jmemAlignment
        (release (before ++ [.used (alignSize size)]) (alignSize block.size - alignSize size)
          after)) := by
    rw [laterBlocks, List.append_assoc, List.singleton_append, List.map_cons]
    exact (isBlocks.cons _).trans List.perm_middle.symm
  refine ⟨⟨_, laterTiled, isPerm, fun other mem => ?_⟩, fun index inside inNew => ?_⟩
  · rcases List.mem_cons.mp mem with rfl | inStore
    · exact ⟨positive, fun index _ => rfl⟩
    · exact ⟨(stored other inStore).1, (stored other inStore).2.keep keeps
        (isPerm.mem_iff.mp (List.mem_map_of_mem mem))⟩
  · have large := le_alignSize size
    have inBlock : block.address + index < block.address + alignSize size := by omega
    rw [keeps (block.address, alignSize size) (isPerm.mem_iff.mp List.mem_cons_self) _
      (Nat.le_add_right _ _) inBlock]
    exact original index inside

/-- `jmem_heap_realloc_block` succeeds, or there is no room for the new block beside the old one
when all that can be freed is freed. -/
theorem Represents.realloc (lawful : reclaimer.Lawful)
    (represents : Represents config heap (block :: store) 0 0) (positive : 0 < size) :
    (jmemHeapReallocBlock config reclaimer store heap block.address block.size size =
        .error .outOfMemory ∧ alignSize block.size < alignSize size ∧
      ∃ kept, (∀ other ∈ kept, other ∈ store) ∧
        ¬Room config (block :: reclaimer.afterAll [.low, .high] kept) (alignSize size)) ∨
    ∃ address final later,
      jmemHeapReallocBlock config reclaimer store heap block.address block.size size =
        .ok (address, final, later) ∧
      Represents config later (freshBlock later.memory address size :: final) 0 0 ∧
      HoldsAt later.memory address block size := by
  have alignment : jmemAlignment = 8 := rfl
  rcases represents.split with ⟨before, after, tiled, isAddress, isBlocks, original, stored⟩
  have inHeap := tiled.inHeap
  have isPointer : jmemIsHeapPointer config block.address = true :=
    isHeapPointer_of (by omega) (by omega)
  have isAligned : block.address % jmemAlignment = 0 := by
    rw [isAddress]
    exact tiled.aligned
  rw [jmemHeapReallocBlock]
  simp only [isPointer, isAligned, not_true_eq_false, ne_eq, or_self, if_false]
  rw [if_neg (by omega)]
  split_ifs with isSame isSmaller
  · -- The block stays as it is.
    refine .inr ⟨block.address, store, heap, rfl, ?_, fun index inside _ => original.2 index inside⟩
    exact Tiled.represents (isSame ▸ tiled) isAddress (isSame ▸ isBlocks) positive stored
  · have found := jmemHeapFindPrev_spec tiled
    rw [← isAddress] at found
    have inserts : ∀ previous, jmemHeapInsertBlock heap (block.address + alignSize size) previous
        (alignSize block.size - alignSize size) = .ok (heap.inserted (block.address + alignSize size)
          previous (alignSize block.size - alignSize size)) := by
      intro previous
      refine jmemHeapInsertBlock_eq ?_ (Nat.dvd_sub (dvd_alignSize block.size) (dvd_alignSize size))
      rw [Nat.add_mod, isAligned, Nat.mod_eq_zero_of_dvd (dvd_alignSize size)]
      rfl
    rw [found]
    simp only [bind, Except.bind, inserts]
    exact .inr ⟨block.address, store, _, rfl, Represents.shrink tiled isAddress isBlocks original.2
      stored positive isSmaller rfl⟩
  · have larger : alignSize block.size < alignSize size := by omega
    rw [growBlock]
    split_ifs with isLow
    · rcases Represents.freeUnusedMemory [block] lawful .low represents (Nat.zero_le _)
        with ⟨middle, returns, middleRepresents⟩
      rw [returns]
      rcases Represents.extendOrMove lawful middleRepresents positive larger with
        ⟨fails, noRoom⟩ | succeeds
      · exact .inl ⟨fails, larger, _, lawful.subset .low store, noRoom⟩
      · exact .inr succeeds
    · rcases represents.extendOrMove lawful positive larger with ⟨fails, noRoom⟩ | succeeds
      · exact .inl ⟨fails, larger, store, fun _ mem => mem, noRoom⟩
      · exact .inr succeeds

end Move

end Cmsframe
