import Cmsframe.Library.ByteMemory
import Cmsframe.Memory.Collector

/-!
# The heap

`jmem-heap.c`. Addresses count from the start of `jmem_heap_t`: the node `first` is at address 0
and the heap area follows it at 8. A free region starts with a header of two words, the offset of
the next free region in the area and its own size. So the free list is inside the memory that
programs write to. What the engine frees when memory is short is a parameter.
-/

namespace Cmsframe

open ByteMemory

/-- `JMEM_ALIGNMENT`, which is the size of `jmem_heap_free_t` too. -/
def jmemAlignment : ℕ := 8

/-- `JMEM_HEAP_END_OF_LIST`. -/
def jmemHeapEndOfList : ℕ := 0xffffffff

/-- `JMEM_HEAP_SIZE` and `CONFIG_GC_LIMIT`. -/
structure JmemConfig where
  heapSize : ℕ
  gcLimit : ℕ
  aligned : jmemAlignment ∣ heapSize
  hasArea : jmemAlignment < heapSize
  small : heapSize < 2 ^ 32
  limited : jmemAlignment ≤ gcLimit

/-- The heap and the fields of the context that belong to it. -/
structure JmemHeap where
  memory : Memory
  listSkip : ℕ
  allocatedSize : ℕ
  limit : ℕ

/-- The assertions of the heap, and what ends the engine. -/
inductive HeapFault where
  | notHeapPointer
  | notAligned
  | badSize
  | badLimit
  | outOfFuel
  | outOfMemory
  deriving DecidableEq

/-- `JMEM_HEAP_GET_OFFSET_FROM_ADDR`. -/
def offsetFromAddr (address : ℕ) : ℕ := address - jmemAlignment

/-- `JMEM_HEAP_GET_ADDR_FROM_OFFSET`. -/
def addrFromOffset (offset : ℕ) : ℕ := jmemAlignment + offset

/-- The field `next_offset` of a header. -/
def nextOffset (memory : Memory) (region : ℕ) : ℕ := readWord memory region

/-- The field `size` of a header. -/
def regionSize (memory : Memory) (region : ℕ) : ℕ := readWord memory (region + 4)

def setNextOffset (memory : Memory) (region offset : ℕ) : Memory := writeWord memory region offset

def setRegionSize (memory : Memory) (region size : ℕ) : Memory :=
  writeWord memory (region + 4) size

/-- `jmem_heap_get_region_end`. -/
def regionEnd (memory : Memory) (region : ℕ) : ℕ := region + regionSize memory region

/-- How many values `size_t` has. -/
def sizeValues : ℕ := 2 ^ 64

/-- The size of a block in memory. The sum does not wrap for the sizes of a run. -/
def alignSize (size : ℕ) : ℕ := (size + jmemAlignment - 1) / jmemAlignment * jmemAlignment

/-- The rest of the engine, which gives blocks back when memory is short. -/
structure Reclaimer (Engine : Type) where
  blocks : JmemPressure → Engine → List (ℕ × ℕ)
  after : JmemPressure → Engine → Engine

section Config

variable (config : JmemConfig)

/-- `jmem_is_heap_pointer`. -/
def jmemIsHeapPointer (pointer : ℕ) : Bool := jmemAlignment ≤ pointer ∧ pointer ≤ config.heapSize

/-- `jmem_heap_init`. -/
def jmemHeapInit (memory : Memory) : JmemHeap :=
  let region := jmemAlignment
  let memory := setRegionSize memory region (config.heapSize - jmemAlignment)
  let memory := setNextOffset memory region jmemHeapEndOfList
  let memory := setRegionSize memory 0 0
  { memory := setNextOffset memory 0 (offsetFromAddr region)
    listSkip := 0
    allocatedSize := 0
    limit := config.gcLimit }

/-- The loop that raises the limit. -/
def raiseLimit (allocated : ℕ) : ℕ → ℕ → ℕ
  | 0, limit => limit
  | fuel + 1, limit =>
      if limit ≤ allocated then raiseLimit allocated fuel (limit + config.gcLimit) else limit

/-- The loop that lowers the limit. -/
def lowerLimit (allocated : ℕ) : ℕ → ℕ → ℕ
  | 0, limit => limit
  | fuel + 1, limit =>
      if allocated + config.gcLimit ≤ limit then
        lowerLimit allocated fuel (limit - config.gcLimit)
      else
        limit

/-- The end of an allocation. -/
def JmemHeap.allocated (heap : JmemHeap) (size : ℕ) : JmemHeap :=
  { heap with
    allocatedSize := heap.allocatedSize + size
    limit := raiseLimit config (heap.allocatedSize + size) (heap.allocatedSize + size + 1)
      heap.limit }

/-- The end of what gives memory back. -/
def JmemHeap.released (heap : JmemHeap) (size : ℕ) : JmemHeap :=
  { heap with
    allocatedSize := heap.allocatedSize - size
    limit := lowerLimit config (heap.allocatedSize - size) (heap.limit + 1) heap.limit }

/-- The free list after eight bytes are taken from the first free region. -/
def takeFromFirst (memory : Memory) : Memory :=
  let data := addrFromOffset (nextOffset memory 0)
  if regionSize memory data = jmemAlignment then
    setNextOffset memory 0 (nextOffset memory data)
  else
    let remaining := addrFromOffset (nextOffset memory 0) + jmemAlignment
    let memory := setRegionSize memory remaining (regionSize memory data - jmemAlignment)
    let memory := setNextOffset memory remaining (nextOffset memory data)
    setNextOffset memory 0 (offsetFromAddr remaining)

/-- The heap after the fast path. -/
def JmemHeap.fastAllocated (heap : JmemHeap) : JmemHeap :=
  let data := addrFromOffset (nextOffset heap.memory 0)
  let allocatedSize := heap.allocatedSize + jmemAlignment
  let memory := takeFromFirst heap.memory
  { memory
    listSkip :=
      if data = heap.listSkip then addrFromOffset (nextOffset memory 0) else heap.listSkip
    allocatedSize
    limit := if heap.limit ≤ allocatedSize then heap.limit + config.gcLimit else heap.limit }

/-- The fast path of `jmem_heap_alloc`. -/
def allocFromFirst (heap : JmemHeap) : Except HeapFault (ℕ × JmemHeap) :=
  let data := addrFromOffset (nextOffset heap.memory 0)
  if ¬jmemIsHeapPointer config data then
    .error .notHeapPointer
  else if regionSize heap.memory data < jmemAlignment then
    .error .badSize
  else
    .ok (data, heap.fastAllocated config)

/-- The search of `jmem_heap_alloc` for a region that is big enough, with the node before it. -/
def findRegion (memory : Memory) (required : ℕ) :
    ℕ → ℕ → ℕ → Except HeapFault (Option (ℕ × ℕ))
  | 0, _, _ => .error .outOfFuel
  | fuel + 1, previous, currentOffset =>
      if currentOffset = jmemHeapEndOfList then
        .ok none
      else
        let current := addrFromOffset currentOffset
        let next := nextOffset memory current
        if jmemIsHeapPointer config current ∧
            (next = jmemHeapEndOfList ∨ jmemIsHeapPointer config (addrFromOffset next)) then
          if required ≤ regionSize memory current then
            .ok (some (previous, current))
          else
            findRegion memory required fuel current next
        else
          .error .notHeapPointer

/-- The free list after the front of a region is taken from it. -/
def takeFront (memory : Memory) (previous current required : ℕ) : Memory :=
  if required < regionSize memory current then
    let remaining := current + required
    let size := regionSize memory current - required
    let next := nextOffset memory current
    let memory := setRegionSize memory remaining size
    let memory := setNextOffset memory remaining next
    setNextOffset memory previous (offsetFromAddr remaining)
  else
    setNextOffset memory previous (nextOffset memory current)

/-- The slow path of `jmem_heap_alloc`. -/
def allocFromList (heap : JmemHeap) (required : ℕ) : Except HeapFault (Option ℕ × JmemHeap) := do
  match ← findRegion config heap.memory required config.heapSize 0
    (nextOffset heap.memory 0) with
  | none => return (none, heap)
  | some (previous, current) =>
      let heap := { heap with
        memory := takeFront heap.memory previous current required
        listSkip := previous }
      return (some current, heap.allocated config required)

/-- `jmem_heap_alloc`, where no block is the null pointer. -/
def jmemHeapAlloc (heap : JmemHeap) (size : ℕ) : Except HeapFault (Option ℕ × JmemHeap) := do
  let required := alignSize size
  let (data, heap) ←
    if required = jmemAlignment ∧ nextOffset heap.memory 0 ≠ jmemHeapEndOfList then
      (allocFromFirst config heap).map fun result => (some result.1, result.2)
    else
      allocFromList config heap required
  if data.getD 0 % jmemAlignment = 0 then
    return (data, heap)
  else
    throw .notAligned

/-- The loop of `jmem_heap_find_prev`. -/
def findPrevLoop (memory : Memory) (blockOffset : ℕ) : ℕ → ℕ → Except HeapFault ℕ
  | 0, _ => .error .outOfFuel
  | fuel + 1, previous =>
      if nextOffset memory previous < blockOffset then
        let next := addrFromOffset (nextOffset memory previous)
        if jmemIsHeapPointer config next then
          findPrevLoop memory blockOffset fuel next
        else
          .error .notHeapPointer
      else
        .ok previous

/-- `jmem_heap_find_prev`. -/
def jmemHeapFindPrev (heap : JmemHeap) (block : ℕ) : Except HeapFault ℕ :=
  if jmemIsHeapPointer config block then
    findPrevLoop config heap.memory (offsetFromAddr block) config.heapSize
      (if heap.listSkip < block then heap.listSkip else 0)
  else
    .error .notHeapPointer

/-- The last step of `jmem_heap_insert_block`, which joins a region with the next one. -/
def joinNext (memory : Memory) (block next : ℕ) : Memory :=
  if regionEnd memory block = next then
    let memory := setRegionSize memory block (regionSize memory block + regionSize memory next)
    setNextOffset memory block (nextOffset memory next)
  else
    setNextOffset memory block (offsetFromAddr next)

/-- `jmem_heap_insert_block` on the memory. -/
def insertBlockMemory (memory : Memory) (block previous size : ℕ) : Memory :=
  let next := addrFromOffset (nextOffset memory previous)
  if regionEnd memory previous = block then
    joinNext (setRegionSize memory previous (regionSize memory previous + size)) previous next
  else
    joinNext (setNextOffset (setRegionSize memory block size) previous (offsetFromAddr block))
      block next

/-- The heap after a block is in the free list. -/
def JmemHeap.inserted (heap : JmemHeap) (block previous size : ℕ) : JmemHeap :=
  { heap with
    memory := insertBlockMemory heap.memory block previous size
    listSkip := previous }

/-- `jmem_heap_insert_block`. -/
def jmemHeapInsertBlock (heap : JmemHeap) (block previous size : ℕ) : Except HeapFault JmemHeap :=
  if block % jmemAlignment = 0 ∧ size % jmemAlignment = 0 then
    .ok (heap.inserted block previous size)
  else
    .error .notAligned

/-- `jmem_heap_free_block_internal`. -/
def jmemHeapFreeBlockInternal (heap : JmemHeap) (block size : ℕ) : Except HeapFault JmemHeap :=
  if size = 0 then
    .error .badSize
  else if heap.limit < heap.allocatedSize ∨ heap.allocatedSize = 0 then
    .error .badLimit
  else if ¬jmemIsHeapPointer config block ∨ block % jmemAlignment ≠ 0 then
    .error .notHeapPointer
  else do
    let previous ← jmemHeapFindPrev config heap block
    let heap ← jmemHeapInsertBlock heap block previous (alignSize size)
    let heap := heap.released config (alignSize size)
    if heap.allocatedSize ≤ heap.limit then
      return heap
    else
      throw .badLimit

variable {Engine : Type} (reclaimer : Reclaimer Engine)

/-- `ecma_free_unused_memory`, by the blocks that are freed. -/
def freeUnusedMemory (pressure : JmemPressure) (engine : Engine) (heap : JmemHeap) :
    Except HeapFault (Engine × JmemHeap) := do
  let heap ← (reclaimer.blocks pressure engine).foldlM
    (fun heap block => jmemHeapFreeBlockInternal config heap block.1 block.2) heap
  return (reclaimer.after pressure engine, heap)

/-- The loop of `jmem_heap_gc_and_alloc_block` over the pressures that are left. -/
def retryAlloc (size : ℕ) (isFatal : Bool) :
    List JmemPressure → Engine → JmemHeap → Except HeapFault (Option ℕ × Engine × JmemHeap)
  | [], engine, heap => if isFatal then .error .outOfMemory else .ok (none, engine, heap)
  | pressure :: pressures, engine, heap => do
      let (engine, heap) ← freeUnusedMemory config reclaimer pressure engine heap
      match ← jmemHeapAlloc config heap size with
      | (none, heap) => retryAlloc size isFatal pressures engine heap
      | (some block, heap) => return (some block, engine, heap)

/-- `jmem_heap_gc_and_alloc_block`, where full pressure ends the engine. -/
def jmemHeapGcAndAllocBlock (engine : Engine) (heap : JmemHeap) (size : ℕ) (isFatal : Bool) :
    Except HeapFault (Option ℕ × Engine × JmemHeap) :=
  if size = 0 then
    .ok (none, engine, heap)
  else do
    let isLow : Bool := heap.limit ≤ (heap.allocatedSize + size) % sizeValues
    let (engine, heap) ←
      if isLow then freeUnusedMemory config reclaimer .low engine heap else pure (engine, heap)
    match ← jmemHeapAlloc config heap size with
    | (none, heap) =>
        retryAlloc config reclaimer size isFatal (if isLow then [.high] else [.low, .high])
          engine heap
    | (some block, heap) => return (some block, engine, heap)

/-- The part of `jmem_heap_realloc_block` that extends the block at its end. -/
def extendAtEnd (memory : Memory) (previous next required : ℕ) : Option Memory :=
  if required ≤ regionSize memory next then
    if required = regionSize memory next then
      some (setNextOffset memory previous (nextOffset memory next))
    else
      let newNext := next + required
      let size := regionSize memory next - required
      let memory := setNextOffset memory newNext (nextOffset memory next)
      let memory := setRegionSize memory newNext size
      some (setNextOffset memory previous (offsetFromAddr newNext))
  else
    none

/-- The part of `jmem_heap_realloc_block` that extends the block at its front, before the bytes are
moved. -/
def extendAtFront (heap : JmemHeap) (previous next required : ℕ) :
    Except HeapFault (Option (ℕ × Memory)) :=
  if required ≤ regionSize heap.memory previous then
    if required = regionSize heap.memory previous then do
      let before ← jmemHeapFindPrev config heap previous
      return some (before, setNextOffset heap.memory before (offsetFromAddr next))
    else
      .ok (some (previous,
        setRegionSize heap.memory previous (regionSize heap.memory previous - required)))
  else
    .ok none

/-- The end of `jmem_heap_realloc_block` for a block that could not be extended. -/
def moveBlock (engine : Engine) (heap : JmemHeap) (block oldSize newSize : ℕ) :
    Except HeapFault (ℕ × Engine × JmemHeap) := do
  let heap := { heap with allocatedSize := heap.allocatedSize - alignSize oldSize }
  match ← jmemHeapGcAndAllocBlock config reclaimer engine heap newSize true with
  | (none, _) => .error .badSize
  | (some target, engine, heap) =>
      let previous ← jmemHeapFindPrev config heap block
      let heap := { heap with memory := copyBytes heap.memory target block oldSize }
      let heap ← jmemHeapInsertBlock heap block previous (alignSize oldSize)
      return (target, engine, heap)

/-- The part of `jmem_heap_realloc_block` that extends a block in place or moves it. -/
def extendOrMove (engine : Engine) (heap : JmemHeap) (block oldSize newSize : ℕ) :
    Except HeapFault (ℕ × Engine × JmemHeap) := do
  let alignedOld := alignSize oldSize
  let required := alignSize newSize - alignedOld
  let previous ← jmemHeapFindPrev config heap block
  let next := addrFromOffset (nextOffset heap.memory previous)
  if block + alignedOld = next then
    match extendAtEnd heap.memory previous next required with
    | some memory =>
        let heap := { heap with memory, listSkip := previous }
        return (block, engine, heap.allocated config required)
    | none => moveBlock config reclaimer engine heap block oldSize newSize
  else if regionEnd heap.memory previous = block then
    match ← extendAtFront config heap previous next required with
    | some (previous, memory) =>
        let heap := { heap with
          memory := copyBytes memory (block - required) block oldSize
          listSkip := previous }
        return (block - required, engine, heap.allocated config required)
    | none => moveBlock config reclaimer engine heap block oldSize newSize
  else
    moveBlock config reclaimer engine heap block oldSize newSize

/-- The part of `jmem_heap_realloc_block` that makes a block larger. -/
def growBlock (engine : Engine) (heap : JmemHeap) (block oldSize newSize : ℕ) :
    Except HeapFault (ℕ × Engine × JmemHeap) := do
  let required := alignSize newSize - alignSize oldSize
  let (engine, heap) ←
    if heap.limit ≤ (heap.allocatedSize + required) % sizeValues then
      freeUnusedMemory config reclaimer .low engine heap
    else
      pure (engine, heap)
  extendOrMove config reclaimer engine heap block oldSize newSize

/-- `jmem_heap_realloc_block`. -/
def jmemHeapReallocBlock (engine : Engine) (heap : JmemHeap) (block oldSize newSize : ℕ) :
    Except HeapFault (ℕ × Engine × JmemHeap) :=
  let alignedNew := alignSize newSize
  let alignedOld := alignSize oldSize
  if ¬jmemIsHeapPointer config block ∨ block % jmemAlignment ≠ 0 then
    .error .notHeapPointer
  else if oldSize = 0 ∨ newSize = 0 then
    .error .badSize
  else if alignedOld = alignedNew then
    .ok (block, engine, heap)
  else if alignedNew < alignedOld then do
    let previous ← jmemHeapFindPrev config heap block
    let heap ← jmemHeapInsertBlock heap (block + alignedNew) previous (alignedOld - alignedNew)
    return (block, engine, heap.released config (alignedOld - alignedNew))
  else
    growBlock config reclaimer engine heap block oldSize newSize

end Config

end Cmsframe
