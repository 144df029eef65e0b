import Cmsframe.Memory.Tiled

/-!
# The heap as a store of blocks

What programs rely on: blocks that were allocated and not yet freed, each with the bytes that were
written to it. The store has no free list and no headers, and what fits into it depends on its
gaps only. The heap represents it, and allocation and release on both sides agree.
-/

namespace Cmsframe

open ByteMemory Tiling

/-- A block that was allocated. -/
structure StoreBlock where
  address : ℕ
  size : ℕ
  contents : ℕ → UInt8

abbrev Store := List StoreBlock

/-- The memory that a block takes up. -/
def StoreBlock.extent (block : StoreBlock) : ℕ × ℕ := (block.address, alignSize block.size)

/-- The bytes of a block are in memory. -/
def StoreBlock.StoredIn (block : StoreBlock) (memory : Memory) : Prop :=
  ∀ index < block.size, memory (block.address + index) = block.contents index

/-- The memory that blocks take up together. -/
def storeUsage (store : Store) : ℕ := (store.map fun block => alignSize block.size).sum

/-- A gap between blocks is big enough. -/
def Room (config : JmemConfig) (store : Store) (size : ℕ) : Prop :=
  ∃ address, jmemAlignment ≤ address ∧ address + size ≤ config.heapSize ∧
    ∀ block ∈ store, address + size ≤ block.address ∨
      block.address + alignSize block.size ≤ address

/-- The heap holds the blocks of a store. -/
def Represents (config : JmemConfig) (heap : JmemHeap) (store : Store) (hidden slack : ℕ) : Prop :=
  ∃ segments, Tiled config heap segments hidden slack ∧
    (store.map StoreBlock.extent).Perm (blocks jmemAlignment segments) ∧
    ∀ block ∈ store, 0 < block.size ∧ block.StoredIn heap.memory

/-- A reclaimer frees blocks of the store. -/
def Reclaimer.Lawful (reclaimer : Reclaimer Store) : Prop :=
  ∀ pressure store, ∃ freed, store.Perm (freed ++ reclaimer.after pressure store) ∧
    reclaimer.blocks pressure store = freed.map fun block => (block.address, block.size)

variable {config : JmemConfig} {heap : JmemHeap} {store other kept : Store}
  {segments before after : List Segment} {hidden slack size : ℕ} {block : StoreBlock}

@[simp] theorem storeUsage_cons (block : StoreBlock) (store : Store) :
    storeUsage (block :: store) = alignSize block.size + storeUsage store := rfl

@[simp] theorem storeUsage_append (left right : Store) :
    storeUsage (left ++ right) = storeUsage left + storeUsage right := by
  simp [storeUsage]

theorem Room.of_subset (subset : ∀ block ∈ other, block ∈ store) (room : Room config store size) :
    Room config other size := by
  rcases room with ⟨address, lower, upper, apart⟩
  exact ⟨address, lower, upper, fun block mem => apart block (subset block mem)⟩

theorem Represents.perm (represents : Represents config heap store hidden slack)
    (perm : store.Perm other) : Represents config heap other hidden slack := by
  rcases represents with ⟨segments, tiled, isBlocks, stored⟩
  exact ⟨segments, tiled, (perm.map _).symm.trans isBlocks,
    fun block mem => stored block (perm.mem_iff.mpr mem)⟩

/-- What the counters say. -/
theorem Represents.accounted (represents : Represents config heap store hidden slack) :
    heap.allocatedSize + hidden = storeUsage store ∧ heap.allocatedSize ≤ heap.limit ∧
      heap.limit ≤ heap.allocatedSize + slack + config.gcLimit := by
  rcases represents with ⟨segments, tiled, isBlocks, _⟩
  refine ⟨?_, tiled.belowLimit, tiled.limitBelow⟩
  rw [tiled.accounted, usedLength_eq_sum jmemAlignment, ← (isBlocks.map Prod.snd).sum_nat,
    List.map_map]
  rfl

/-- A block stays stored as long as its memory is kept. -/
theorem StoreBlock.StoredIn.keep {later memory : Memory} (stored : block.StoredIn memory)
    (keeps : KeepsBlocks segments memory later)
    (mem : block.extent ∈ blocks jmemAlignment segments) : block.StoredIn later := by
  intro index inside
  have fits := le_alignSize block.size
  have bound : block.address + index < block.address + alignSize block.size := by omega
  rw [keeps block.extent mem (block.address + index) (Nat.le_add_right _ _) bound]
  exact stored index inside

/-- Where a block is in the heap. -/
theorem Represents.split (represents : Represents config heap (block :: store) hidden slack) :
    ∃ before after, Tiled config heap (before ++ .used (alignSize block.size) :: after) hidden
        slack ∧ block.address = jmemAlignment + length before ∧
      (store.map StoreBlock.extent).Perm (blocks jmemAlignment before ++
        blocks (jmemAlignment + length before + alignSize block.size) after) ∧
      (0 < block.size ∧ block.StoredIn heap.memory) ∧
      ∀ other ∈ store, 0 < other.size ∧ other.StoredIn heap.memory := by
  rcases represents with ⟨segments, tiled, isBlocks, stored⟩
  rcases exists_of_mem_blocks (isBlocks.mem_iff.mp List.mem_cons_self) with
    ⟨before, after, rfl, isAddress⟩
  refine ⟨before, after, tiled, isAddress, ?_, stored block List.mem_cons_self,
    fun other mem => stored other (List.mem_cons_of_mem _ mem)⟩
  rw [blocks_append, blocks, List.map_cons, StoreBlock.extent, isAddress] at isBlocks
  exact (isBlocks.trans List.perm_middle).cons_inv

/-- A block of the store is freed. -/
theorem Represents.free (represents : Represents config heap (block :: store) hidden slack)
    (isHidden : hidden ≤ storeUsage store) :
    ∃ later, jmemHeapFreeBlockInternal config heap block.address block.size = .ok later ∧
      Represents config later store hidden slack := by
  have accounted := represents.accounted.1
  rcases represents.split with ⟨before, after, tiled, isAddress, isBlocks, positive, stored⟩
  have isUsed := tiled.accounted
  simp only [usedLength_append, usedLength] at isUsed
  rw [storeUsage_cons] at accounted
  rcases jmemHeapFreeBlockInternal_spec tiled positive.1 (by omega) with
    ⟨later, returns, laterTiled, keeps⟩
  rw [isAddress]
  rw [← (release_spec _ _ jmemAlignment (alignSize block.size)).2.1] at isBlocks
  refine ⟨later, returns, _, laterTiled, isBlocks, fun other mem => ?_⟩
  exact ⟨(stored other mem).1, (stored other mem).2.keep keeps
    (isBlocks.mem_iff.mp (List.mem_map_of_mem mem))⟩

/-- Blocks of the store are freed one after another. -/
theorem Represents.freeAll {freed : Store}
    (represents : Represents config heap (freed ++ store) hidden slack)
    (isHidden : hidden ≤ storeUsage store) :
    ∃ later, (freed.map fun block => (block.address, block.size)).foldlM
        (fun heap block => jmemHeapFreeBlockInternal config heap block.1 block.2) heap =
          .ok later ∧ Represents config later store hidden slack := by
  induction freed generalizing heap with
  | nil => exact ⟨heap, rfl, represents⟩
  | cons block freed ih =>
      have covered : hidden ≤ storeUsage (freed ++ store) := by
        rw [storeUsage_append]
        omega
      rcases Represents.free represents covered with ⟨middle, returns, middleRepresents⟩
      rcases ih middleRepresents with ⟨later, rest, laterRepresents⟩
      refine ⟨later, ?_, laterRepresents⟩
      rw [List.map_cons, List.foldlM_cons, returns]
      exact rest

/-- The engine frees what it can while some blocks are kept. -/
theorem Represents.freeUnusedMemory {reclaimer : Reclaimer Store} (kept : Store)
    (lawful : reclaimer.Lawful) (pressure : JmemPressure)
    (represents : Represents config heap (kept ++ store) hidden slack)
    (isHidden : hidden ≤ storeUsage kept) :
    ∃ later, Cmsframe.freeUnusedMemory config reclaimer pressure store heap =
        .ok (reclaimer.after pressure store, later) ∧
      Represents config later (kept ++ reclaimer.after pressure store) hidden slack := by
  rcases lawful pressure store with ⟨freed, perm, isBlocks⟩
  have moved : (kept ++ store).Perm (freed ++ (kept ++ reclaimer.after pressure store)) := by
    refine (perm.append_left kept).trans ?_
    rw [← List.append_assoc, ← List.append_assoc]
    exact List.perm_append_comm.append_right _
  rcases (represents.perm moved).freeAll (by rw [storeUsage_append]; omega) with
    ⟨later, returns, laterRepresents⟩
  refine ⟨later, ?_, laterRepresents⟩
  rw [Cmsframe.freeUnusedMemory, isBlocks, returns]
  rfl

/-- Nothing that is kept is freed. -/
theorem Reclaimer.Lawful.subset {reclaimer : Reclaimer Store} (lawful : reclaimer.Lawful)
    (pressure : JmemPressure) (store : Store) :
    ∀ block ∈ reclaimer.after pressure store, block ∈ store := by
  rcases lawful pressure store with ⟨freed, perm, _⟩
  exact fun block mem => perm.mem_iff.mpr (List.mem_append_right freed mem)

/-- What is left of the store after the pressures. -/
def Reclaimer.afterAll (reclaimer : Reclaimer Store) (pressures : List JmemPressure)
    (store : Store) : Store :=
  pressures.foldl (fun store pressure => reclaimer.after pressure store) store

theorem Reclaimer.afterAll_cons (reclaimer : Reclaimer Store) (pressure : JmemPressure)
    (pressures : List JmemPressure) (store : Store) :
    reclaimer.afterAll (pressure :: pressures) store =
      reclaimer.afterAll pressures (reclaimer.after pressure store) := rfl

theorem Reclaimer.Lawful.subset_afterAll {reclaimer : Reclaimer Store} (lawful : reclaimer.Lawful)
    (pressures : List JmemPressure) (store : Store) :
    ∀ block ∈ reclaimer.afterAll pressures store, block ∈ store := by
  induction pressures generalizing store with
  | nil => exact fun _ mem => mem
  | cons pressure pressures ih =>
      exact fun block mem => lawful.subset pressure store block (ih _ block mem)

theorem subset_kept {reclaimer : Reclaimer Store} (lawful : reclaimer.Lawful)
    (pressures : List JmemPressure) (kept store : Store) :
    ∀ block ∈ kept ++ reclaimer.afterAll pressures store, block ∈ kept ++ store := by
  intro block mem
  rw [List.mem_append] at mem ⊢
  exact mem.imp_right (lawful.subset_afterAll pressures store block)

/-- A free region is a gap between blocks, and a gap is in a free region. -/
theorem room_iff (tiled : Tiled config heap segments hidden slack)
    (isBlocks : (store.map StoreBlock.extent).Perm (blocks jmemAlignment segments))
    (positive : 0 < size) :
    Room config store size ↔ ∃ region ∈ regions jmemAlignment segments, size ≤ region.2 := by
  constructor
  · rintro ⟨address, lower, upper, apart⟩
    have isGap : ∀ extent ∈ blocks jmemAlignment segments,
        address + size ≤ extent.1 ∨ extent.1 + extent.2 ≤ address := by
      intro extent mem
      rcases List.mem_map.mp (isBlocks.mem_iff.mpr mem) with ⟨block, blockMem, rfl⟩
      exact apart block blockMem
    rcases exists_region_of_gap tiled.coalesced tiled.fits positive lower
      (upper.trans tiled.whole.ge) isGap with ⟨region, mem, front, back⟩
    exact ⟨region, mem, by omega⟩
  · rintro ⟨⟨address, large⟩, mem, enough⟩
    have bounds := regions_bounds mem
    have whole := tiled.whole
    refine ⟨address, bounds.1, by omega, fun block blockMem => ?_⟩
    have apart := blocks_apart_regions (isBlocks.mem_iff.mp (List.mem_map_of_mem blockMem)) mem
    simp only at enough
    omega

/-- The new block with whatever is in its memory. -/
def freshBlock (memory : Memory) (address size : ℕ) : StoreBlock :=
  ⟨address, size, fun index => memory (address + index)⟩

/-- `jmem_heap_alloc` fails only if there is no room. -/
theorem Represents.alloc (represents : Represents config heap store hidden slack)
    (positive : 0 < size) :
    (jmemHeapAlloc config heap size = .ok (none, heap) ∧ ¬Room config store (alignSize size)) ∨
    ∃ address later, jmemHeapAlloc config heap size = .ok (some address, later) ∧
      Room config store (alignSize size) ∧
      Represents config later (freshBlock later.memory address size :: store) hidden
        (slack - alignSize size) := by
  rcases represents with ⟨segments, tiled, isBlocks, stored⟩
  have room := room_iff tiled isBlocks (alignSize_pos positive)
  rcases jmemHeapAlloc_spec tiled positive with ⟨returns, none⟩ |
    ⟨before, free, after, later, rfl, enough, returns, laterTiled, keeps⟩
  · refine .inl ⟨returns, fun isRoom => ?_⟩
    rcases room.mp isRoom with ⟨region, mem, large⟩
    have less := none region mem
    omega
  · refine .inr ⟨_, later, returns, room.mpr ⟨(jmemAlignment + length before, free), ?_, enough⟩,
      _, laterTiled, ?_, ?_⟩
    · rw [regions_append]
      exact List.mem_append_right _ List.mem_cons_self
    · rcases carve_spec (jmemAlignment + length before) enough with ⟨isLength, isCarved, _⟩
      rw [blocks_append, blocks] at isBlocks
      rw [blocks_append, blocks_append, isLength, isCarved]
      exact (isBlocks.cons _).trans List.perm_middle.symm
    · intro block mem
      rcases List.mem_cons.mp mem with rfl | inStore
      · exact ⟨positive, fun index _ => rfl⟩
      · exact ⟨(stored block inStore).1, (stored block inStore).2.keep keeps
          (isBlocks.mem_iff.mp (List.mem_map_of_mem inStore))⟩

/-- Blocks do not overlap. -/
theorem Represents.apart (represents : Represents config heap (block :: store) hidden slack) :
    ∀ other ∈ store, block.address + alignSize block.size ≤ other.address ∨
      other.address + alignSize other.size ≤ block.address := by
  rcases represents.split with ⟨before, after, _, isAddress, isBlocks, _, _⟩
  intro other mem
  have inBlocks := isBlocks.mem_iff.mp (List.mem_map_of_mem mem)
  rcases List.mem_append.mp inBlocks with inBefore | inAfter
  · have bounds := blocks_bounds inBefore
    omega
  · have bounds := blocks_bounds inAfter
    omega

/-- Writes to a block change that block only. -/
theorem Represents.overwrite (represents : Represents config heap (block :: store) hidden slack)
    (memory : Memory)
    (same : ∀ byte, byte < block.address ∨ block.address + alignSize block.size ≤ byte →
      memory byte = heap.memory byte) :
    Represents config { heap with memory }
      (freshBlock memory block.address block.size :: store) hidden slack := by
  have apart := represents.apart
  rcases represents with ⟨segments, tiled, isBlocks, stored⟩
  refine ⟨segments, tiled.write fun byte outside => same byte ?_, isBlocks, ?_⟩
  · exact outside block.extent (isBlocks.mem_iff.mp List.mem_cons_self)
  · intro other mem
    rcases List.mem_cons.mp mem with rfl | inStore
    · exact ⟨(stored block List.mem_cons_self).1, fun index _ => rfl⟩
    · refine ⟨(stored other (List.mem_cons_of_mem _ inStore)).1, fun index inside => ?_⟩
      have large := le_alignSize other.size
      have notBlock := apart other inStore
      have unchanged := same (other.address + index) (by omega)
      exact unchanged.trans ((stored other (List.mem_cons_of_mem _ inStore)).2 index inside)

/-- The pressures that are left are tried in turn. -/
theorem Represents.retry {reclaimer : Reclaimer Store} (lawful : reclaimer.Lawful)
    (pressures : List JmemPressure) (isFatal : Bool)
    (represents : Represents config heap (kept ++ store) hidden slack) (positive : 0 < size)
    (isHidden : hidden ≤ storeUsage kept)
    (noRoom : ¬Room config (kept ++ store) (alignSize size)) :
    (¬Room config (kept ++ reclaimer.afterAll pressures store) (alignSize size) ∧ ∃ later,
        Represents config later (kept ++ reclaimer.afterAll pressures store) hidden slack ∧
        retryAlloc config reclaimer size isFatal pressures store heap =
          if isFatal then .error .outOfMemory
          else .ok (none, reclaimer.afterAll pressures store, later)) ∨
      (Room config (kept ++ reclaimer.afterAll pressures store) (alignSize size) ∧
        ∃ address final later, retryAlloc config reclaimer size isFatal pressures store heap =
          .ok (some address, final, later) ∧
        Represents config later (freshBlock later.memory address size :: (kept ++ final)) hidden
          (slack - alignSize size)) := by
  induction pressures generalizing heap store with
  | nil =>
      refine .inl ⟨noRoom, heap, represents, ?_⟩
      rfl
  | cons pressure pressures ih =>
      rcases represents.freeUnusedMemory kept lawful pressure isHidden with
        ⟨middle, returns, middleRepresents⟩
      rw [retryAlloc, returns]
      simp only [bind, Except.bind]
      rcases middleRepresents.alloc positive with ⟨fails, stillNoRoom⟩ |
        ⟨address, later, succeeds, room, laterRepresents⟩
      · rw [fails]
        exact ih middleRepresents stillNoRoom
      · rw [succeeds]
        exact .inr ⟨room.of_subset (subset_kept lawful pressures kept _), address, _, later, rfl,
          laterRepresents⟩

/-- `jmem_heap_gc_and_alloc_block` finds a block if and only if there is room when all that can be
freed is freed. -/
theorem Represents.gcAndAlloc {reclaimer : Reclaimer Store} (kept : Store)
    (lawful : reclaimer.Lawful)
    (isFatal : Bool) (represents : Represents config heap (kept ++ store) hidden slack)
    (positive : 0 < size) (isHidden : hidden ≤ storeUsage kept) :
    (¬Room config (kept ++ reclaimer.afterAll [.low, .high] store) (alignSize size) ∧ ∃ later,
        Represents config later (kept ++ reclaimer.afterAll [.low, .high] store) hidden slack ∧
        jmemHeapGcAndAllocBlock config reclaimer store heap size isFatal =
          if isFatal then .error .outOfMemory
          else .ok (none, reclaimer.afterAll [.low, .high] store, later)) ∨
      (Room config (kept ++ reclaimer.afterAll [.low, .high] store) (alignSize size) ∧
        ∃ address final later, jmemHeapGcAndAllocBlock config reclaimer store heap size isFatal =
          .ok (some address, final, later) ∧
        Represents config later (freshBlock later.memory address size :: (kept ++ final)) hidden
          (slack - alignSize size)) := by
  rw [jmemHeapGcAndAllocBlock, if_neg positive.ne']
  by_cases isLow : heap.limit ≤ (heap.allocatedSize + size) % sizeValues
  · simp only [isLow, decide_true, if_true]
    rw [Reclaimer.afterAll_cons]
    rcases represents.freeUnusedMemory kept lawful .low isHidden with
      ⟨middle, returns, middleRepresents⟩
    rw [returns]
    rcases middleRepresents.alloc positive with ⟨fails, noRoom⟩ |
      ⟨address, later, succeeds, room, laterRepresents⟩
    · simpa only [fails, bind, Except.bind] using
        middleRepresents.retry lawful [.high] isFatal positive isHidden noRoom
    · refine .inr ⟨room.of_subset (subset_kept lawful [.high] kept _), address, _, later, ?_,
        laterRepresents⟩
      simp only [succeeds, bind, Except.bind]
      rfl
  · simp only [isLow, decide_false, Bool.false_eq_true, if_false]
    rcases represents.alloc positive with ⟨fails, noRoom⟩ |
      ⟨address, later, succeeds, room, laterRepresents⟩
    · simpa only [fails, bind, Except.bind, pure, Except.pure] using
        represents.retry lawful [.low, .high] isFatal positive isHidden noRoom
    · refine .inr ⟨room.of_subset (subset_kept lawful [.low, .high] kept _), address, _, later,
        ?_, laterRepresents⟩
      simp only [succeeds, bind, Except.bind, pure, Except.pure]

end Cmsframe
