import Cmsframe.Memory.Allocation

/-!
# Giving memory back to the free list

`jmem_heap_insert_block` joins the block with the free regions next to it, so that no two of them
meet.
-/

namespace Cmsframe

open ByteMemory Tiling

variable {config : JmemConfig} {memory later : Memory} {front back before after : List Segment}

/-- Only the headers of the node before and of the block change. -/
theorem insertBlockMemory_outside {block previous size byte : ℕ}
    (notPrevious : ¬(previous ≤ byte ∧ byte < previous + 8))
    (notBlock : ¬(block ≤ byte ∧ byte < block + 8)) :
    insertBlockMemory memory block previous size byte = memory byte := by
  have outside : ∀ (old : Memory) (region value : ℕ), region = previous ∨ region = block →
      setNextOffset old region value byte = old byte ∧
        setRegionSize old region value byte = old byte := by
    intro old region value isHeader
    exact ⟨writeWord_outside (by omega), writeWord_outside (by omega)⟩
  have joined : ∀ (old : Memory) (region next : ℕ), region = previous ∨ region = block →
      joinNext old region next byte = old byte := by
    intro old region next isHeader
    rw [joinNext]
    split_ifs <;> simp only [outside _ region _ isHeader]
  rw [insertBlockMemory]
  by_cases merges : regionEnd memory previous = block
  · rw [if_pos merges, joined _ _ _ (.inl rfl), (outside _ _ _ (.inl rfl)).2]
  · rw [if_neg merges, joined _ _ _ (.inr rfl), (outside _ _ _ (.inl rfl)).1,
      (outside _ _ _ (.inr rfl)).2]

/-- Behind a block the next free region begins later, unless it is the next segment. -/
theorem next_ne_of_used {previous address : ℕ} (fits : Fits after)
    (notFree : ∀ first ∈ after.head?, first.isFree = false) (inArea : jmemAlignment ≤ address)
    (inHeap : address + length after ≤ config.heapSize)
    (freeList : FreeList memory previous address after) :
    addrFromOffset (nextOffset memory previous) ≠ address := by
  have small := config.small
  rcases freeList.next_cases with ⟨ends, _⟩ | ⟨inner, size, rest, rfl, _, _, link, _⟩
  · rw [ends, addrFromOffset, jmemHeapEndOfList, jmemAlignment]
    omega
  · rw [link, addrFromOffset_offsetFromAddr (by omega)]
    cases inner with
    | nil =>
        have isFree := notFree (.free size) rfl
        simp [Segment.isFree] at isFree
    | cons segment inner =>
        have positive := (aligned_cons.mp fits).1.1
        rw [length_cons]
        omega

/-- The region before a block ends where the block begins only if it is the segment before it. -/
theorem regionEnd_ne_of_used (fits : Fits before)
    (notFree : ∀ last ∈ before.getLast?, last.isFree = false)
    (firstSize : regionSize memory 0 = 0) (linked : Linked memory 0 jmemAlignment before) :
    regionEnd memory (lastRegion 0 jmemAlignment before) ≠ jmemAlignment + length before := by
  rcases lastRegion_cases 0 jmemAlignment before with ⟨isFirst, _⟩ |
    ⟨inner, size, rest, rfl, isLast, _⟩
  · rw [isFirst, regionEnd, firstSize, jmemAlignment]
    omega
  · have isSize := ((linked_append _ _ _ _).mp linked).2.2.1
    rw [isLast, regionEnd, isSize, length_append, length_cons, Segment.size_free]
    cases rest with
    | nil =>
        have isFree := notFree (.free size) (by simp)
        simp [Segment.isFree] at isFree
    | cons segment rest =>
        have positive := (aligned_cons.mp (aligned_cons.mp (aligned_append.mp fits).2).2).1.1
        rw [length_cons]
        omega

/-- The free list around a header that was written. -/
theorem freeList_header {other : Memory} {size tail : ℕ} (frontFits : Fits front)
    (backFits : Fits back) (large : jmemAlignment ≤ size)
    (linked : Linked later 0 jmemAlignment front)
    (link : nextOffset later (lastRegion 0 jmemAlignment front) =
      offsetFromAddr (jmemAlignment + length front))
    (outside : ∀ byte, byte < jmemAlignment + length front ∨
      jmemAlignment + length front + jmemAlignment ≤ byte → other byte = later byte)
    (header : regionSize other (jmemAlignment + length front) = size)
    (next : nextOffset other (jmemAlignment + length front) = nextOffset memory tail)
    (same : ∀ byte, jmemAlignment + length front + size ≤ byte → later byte = memory byte)
    (backList : FreeList memory tail (jmemAlignment + length front + size) back) :
    FreeList other 0 jmemAlignment (front ++ .free size :: back) := by
  have alignment : jmemAlignment = 8 := rfl
  have bounds := lastRegion_bounds 0 jmemAlignment frontFits
  have frontLinked : Linked other 0 jmemAlignment front := by
    refine linked.congr frontFits (Nat.zero_add _).le fun byte range _ => outside byte ?_
    omega
  have frontLink : nextOffset other (lastRegion 0 jmemAlignment front) =
      offsetFromAddr (jmemAlignment + length front) := by
    refine Eq.trans (readWord_congr fun byte lower upper => outside byte ?_) link
    omega
  have backLinked := FreeList.congr backFits next
    (fun byte lower _ => (outside byte (by omega)).trans (same byte lower)) backList
  exact (freeList_append _ _ _ _).mpr
    ⟨frontLinked, ⟨frontLink, header, backLinked.1⟩, backLinked.2⟩

/-- What is behind a new region is joined with it if it is free. -/
theorem freeList_joinNext (config : JmemConfig) {previous total : ℕ} (frontFits : Fits front)
    (afterFits : Fits after) (isTotal : regionSize later (jmemAlignment + length front) = total)
    (large : jmemAlignment ≤ total) (linked : Linked later 0 jmemAlignment front)
    (link : nextOffset later (lastRegion 0 jmemAlignment front) =
      offsetFromAddr (jmemAlignment + length front))
    (same : ∀ byte, jmemAlignment + length front + total ≤ byte → later byte = memory byte)
    (inHeap : jmemAlignment + length front + total + length after ≤ config.heapSize)
    (afterList : FreeList memory previous (jmemAlignment + length front + total) after) :
    FreeList (joinNext later (jmemAlignment + length front)
        (addrFromOffset (nextOffset memory previous))) 0 jmemAlignment
      (front ++ .free (total + (mergeRight after).1) :: (mergeRight after).2) := by
  have alignment : jmemAlignment = 8 := rfl
  have small := config.small
  rw [joinNext, regionEnd, isTotal]
  rcases mergeRight_cases after with ⟨isRight, notFree⟩ | ⟨size, rest, rfl, isRight⟩
  · have apart := next_ne_of_used afterFits notFree (by omega) inHeap afterList
    rw [if_neg (Ne.symm apart), isRight, offsetFromAddr_addrFromOffset]
    refine freeList_header frontFits afterFits large linked link ?_
      ((regionSize_setNextOffset (.inr le_rfl)).trans isTotal)
      (nextOffset_setNextOffset (nextOffset_lt _ _)) same afterList
    intro byte outside
    rw [setNextOffset, writeWord_outside (by omega)]
  · rcases afterList with ⟨⟨afterLink, isSize, restLinked⟩, ends⟩
    rw [length_cons, Segment.size_free] at inHeap
    rcases aligned_cons.mp afterFits with ⟨_, restFits⟩
    have nextSize : regionSize later (jmemAlignment + length front + total) = size :=
      (readWord_congr fun byte lower _ => same byte (by omega)).trans isSize
    have nextLink : nextOffset (setRegionSize later (jmemAlignment + length front) (total + size))
        (jmemAlignment + length front + total) =
          nextOffset memory (jmemAlignment + length front + total) := by
      rw [nextOffset_setRegionSize (by omega)]
      exact readWord_congr fun byte lower _ => same byte lower
    rw [afterLink, addrFromOffset_offsetFromAddr (by omega), if_pos rfl, isRight]
    simp only [nextSize, nextLink]
    refine freeList_header frontFits restFits (by omega) linked link ?_
      ((regionSize_setNextOffset (.inr le_rfl)).trans (regionSize_setRegionSize (by omega)))
      (nextOffset_setNextOffset (nextOffset_lt _ _)) (fun byte lower => same byte (by omega))
      (by
        rw [← Nat.add_assoc]
        exact ⟨restLinked, ends⟩)
    intro byte outside
    rw [setNextOffset, writeWord_outside (by omega), setRegionSize, writeWord_outside (by omega)]

/-- The free list after a used segment becomes free. -/
theorem FreeList.insertBlock (config : JmemConfig) {size : ℕ} (beforeFits : Fits before)
    (afterFits : Fits after)
    (positive : 0 < size) (divides : jmemAlignment ∣ size)
    (inHeap : jmemAlignment + length before + size + length after ≤ config.heapSize)
    (firstSize : regionSize memory 0 = 0)
    (freeList : FreeList memory 0 jmemAlignment (before ++ .used size :: after)) :
    FreeList (insertBlockMemory memory (jmemAlignment + length before)
      (lastRegion 0 jmemAlignment before) size) 0 jmemAlignment (release before size after) := by
  have alignment : jmemAlignment = 8 := rfl
  have small := config.small
  have large := Nat.le_of_dvd positive divides
  have bounds := lastRegion_bounds 0 jmemAlignment beforeFits
  rcases (freeList_append _ _ _ _).mp freeList with ⟨linked, afterList⟩
  rw [insertBlockMemory, release]
  rcases mergeLeft_cases before with ⟨isLeft, notFree⟩ | ⟨front, first, rfl, isLeft⟩
  · rw [if_neg (regionEnd_ne_of_used beforeFits notFree firstSize linked), isLeft, Nat.zero_add]
    have outside : ∀ byte, ¬(lastRegion 0 jmemAlignment before ≤ byte ∧
        byte < lastRegion 0 jmemAlignment before + 4) →
        byte < jmemAlignment + length before ∨ jmemAlignment + length before + size ≤ byte →
          setNextOffset (setRegionSize memory (jmemAlignment + length before) size)
            (lastRegion 0 jmemAlignment before)
            (offsetFromAddr (jmemAlignment + length before)) byte = memory byte := by
      intro byte notLast notBlock
      rw [setNextOffset, writeWord_outside (by omega), setRegionSize, writeWord_outside (by omega)]
    refine freeList_joinNext config beforeFits afterFits ?_ large ?_ ?_ ?_ inHeap
      afterList
    · rw [regionSize_setNextOffset (by omega), regionSize_setRegionSize (by omega)]
    · refine linked.congr beforeFits (Nat.zero_add _).le fun byte range notLast =>
        outside byte notLast ?_
      omega
    · exact nextOffset_setNextOffset (by rw [offsetFromAddr]; omega)
    · exact fun byte lower => outside byte (by omega) (.inr lower)
  · rcases (linked_append _ _ _ _).mp linked with ⟨frontLinked, link, isSize, _⟩
    rcases aligned_append.mp beforeFits with ⟨frontFits, lastFits⟩
    have firstLarge := Fits.size_le lastFits List.mem_cons_self
    rw [Segment.size_free] at firstLarge
    have isLast : lastRegion 0 jmemAlignment (front ++ [.free first]) =
        jmemAlignment + length front := by rw [lastRegion_append, lastRegion, lastRegion]
    have isLength : length (front ++ [.free first]) = length front + first := by simp
    have frontBounds := lastRegion_bounds 0 jmemAlignment frontFits
    rw [isLength, ← Nat.add_assoc] at inHeap afterList
    rw [isLast] at afterList
    rw [isLast, isLength, regionEnd, isSize, if_pos (Nat.add_assoc _ _ _), isLeft]
    have outside : ∀ byte, byte < jmemAlignment + length front ∨
        jmemAlignment + length front + 8 ≤ byte →
          setRegionSize memory (jmemAlignment + length front) (first + size) byte = memory byte :=
      fun byte notHeader => writeWord_outside (by omega)
    have sum : jmemAlignment + length front + (first + size) =
      jmemAlignment + length front + first + size := by omega
    refine freeList_joinNext config frontFits afterFits
      (regionSize_setRegionSize (by omega)) (by omega) ?_ ?_ ?_ (by omega) (sum ▸ afterList)
    · refine frontLinked.congr frontFits (Nat.zero_add _).le fun byte range _ => outside byte ?_
      omega
    · refine Eq.trans (readWord_congr fun byte lower upper => outside byte ?_) link
      omega
    · exact fun byte lower => outside byte (by omega)

end Cmsframe
