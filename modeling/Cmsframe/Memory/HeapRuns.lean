import Cmsframe.Memory.Realloc
import Mathlib.Logic.Function.Basic
import Mathlib.Logic.Relation

/-!
# Runs of the heap

A run starts with the empty heap. A program allocates, frees and resizes blocks and writes to
them, in any order. The only thing it has to keep to is the interface: it frees and resizes blocks
that it has, and writes inside of them. Whenever memory is short, the engine may free any blocks,
except the one that is resized.
-/

namespace Cmsframe

open ByteMemory Tiling

/-- A program uses the heap. The store is what it knows about its blocks. The sizes it asks for are
values of `size_t` that can be aligned. -/
inductive HeapStep (config : JmemConfig) (reclaimer : Reclaimer Store) :
    JmemHeap × Store → JmemHeap × Store → Prop
  | alloc (size : ℕ) (isFatal : Bool) {heap later : JmemHeap} {store final : Store} {address : ℕ}
      (inRange : size + jmemAlignment ≤ sizeValues)
      (returns : jmemHeapGcAndAllocBlock config reclaimer store heap size isFatal =
        .ok (some address, final, later)) :
      HeapStep config reclaimer (heap, store)
        (later, freshBlock later.memory address size :: final)
  | allocNull (size : ℕ) (isFatal : Bool) {heap later : JmemHeap} {store final : Store}
      (inRange : size + jmemAlignment ≤ sizeValues)
      (returns : jmemHeapGcAndAllocBlock config reclaimer store heap size isFatal =
        .ok (none, final, later)) :
      HeapStep config reclaimer (heap, store) (later, final)
  | free {heap later : JmemHeap} {store rest : Store} {block : StoreBlock}
      (has : store.Perm (block :: rest))
      (returns : jmemHeapFreeBlockInternal config heap block.address block.size = .ok later) :
      HeapStep config reclaimer (heap, store) (later, rest)
  | realloc (size : ℕ) {heap later : JmemHeap} {store rest final : Store} {block : StoreBlock}
      {address : ℕ} (has : store.Perm (block :: rest)) (positive : 0 < size)
      (inRange : size + jmemAlignment ≤ sizeValues)
      (returns : jmemHeapReallocBlock config reclaimer rest heap block.address block.size size =
        .ok (address, final, later)) :
      HeapStep config reclaimer (heap, store)
        (later, ⟨address, size, fun index =>
          if index < block.size then block.contents index
          else later.memory (address + index)⟩ :: final)
  | write (index : ℕ) (byte : UInt8) {heap : JmemHeap} {store rest : Store} {block : StoreBlock}
      (has : store.Perm (block :: rest)) (inside : index < block.size) :
      HeapStep config reclaimer (heap, store)
        ({ heap with memory := Function.update heap.memory (block.address + index) byte },
          { block with contents := Function.update block.contents index byte } :: rest)

variable {config : JmemConfig} {reclaimer : Reclaimer Store} {heap : JmemHeap} {store : Store}
  {memory : Memory} {hidden slack : ℕ} {block : StoreBlock}

/-- Blocks of the store may be described in another way. -/
theorem Represents.describe {contents : ℕ → UInt8}
    (represents : Represents config heap (block :: store) hidden slack)
    (same : ∀ index < block.size, block.contents index = contents index) :
    Represents config heap ({ block with contents } :: store) hidden slack := by
  rcases represents with ⟨segments, tiled, isBlocks, stored⟩
  refine ⟨segments, tiled, isBlocks, fun other mem => ?_⟩
  rcases List.mem_cons.mp mem with rfl | inStore
  · have original := stored block List.mem_cons_self
    exact ⟨original.1, fun index inside => (original.2 index inside).trans (same index inside)⟩
  · exact stored other (List.mem_cons_of_mem _ inStore)

/-- A step of a program keeps the heap in line with the store. -/
theorem HeapStep.represents {state after : JmemHeap × Store} (lawful : reclaimer.Lawful)
    (step : HeapStep config reclaimer state after)
    (represents : Represents config state.1 state.2 0 0) :
    Represents config after.1 after.2 0 0 := by
  cases step with
  | @alloc size isFatal heap later store final address _ returns =>
      rcases Nat.eq_zero_or_pos size with isZero | positive
      · rw [jmemHeapGcAndAllocBlock, if_pos isZero] at returns
        cases returns
      · rcases Represents.gcAndAlloc [] lawful isFatal represents positive
          (Nat.le_refl _) with ⟨_, other, _, fails⟩ | ⟨_, _, _, _, succeeds, laterRepresents⟩
        · rw [returns] at fails
          split_ifs at fails
          cases fails
        · rw [returns] at succeeds
          cases succeeds
          rw [Nat.zero_sub] at laterRepresents
          exact laterRepresents
  | @allocNull size isFatal heap later store final _ returns =>
      rcases Nat.eq_zero_or_pos size with isZero | positive
      · rw [jmemHeapGcAndAllocBlock, if_pos isZero] at returns
        cases returns
        exact represents
      · rcases Represents.gcAndAlloc [] lawful isFatal represents positive
          (Nat.le_refl _) with ⟨_, other, otherRepresents, fails⟩ | ⟨_, _, _, _, succeeds, _⟩
        · rw [returns] at fails
          split_ifs at fails
          cases fails
          exact otherRepresents
        · rw [returns] at succeeds
          cases succeeds
  | free has returns =>
      rcases Represents.free (represents.perm has) (Nat.zero_le _) with
        ⟨later, frees, laterRepresents⟩
      cases returns.symm.trans frees
      exact laterRepresents
  | realloc size has positive _ returns =>
      rcases Represents.realloc lawful (represents.perm has) positive with ⟨fails, _⟩ |
        ⟨_, _, _, succeeds, laterRepresents, holds⟩
      · cases returns.symm.trans fails
      · cases returns.symm.trans succeeds
        refine laterRepresents.describe fun index inside => ?_
        simp only [freshBlock] at inside ⊢
        split_ifs with inOld
        · exact holds index inOld inside
        · rfl
  | @write index byte heap store rest block has inside =>
      have large := le_alignSize block.size
      have written := (represents.perm has).overwrite
        (Function.update heap.memory (block.address + index) byte)
        fun other outside => Function.update_of_ne (by omega) _ _
      have stored : block.StoredIn heap.memory := by
        rcases represents.perm has with ⟨_, _, _, stored⟩
        exact (stored block List.mem_cons_self).2
      refine written.describe fun other isOther => ?_
      simp only [freshBlock]
      by_cases isHere : other = index
      · rw [isHere, Function.update_self, Function.update_self]
      · rw [Function.update_of_ne (by omega), Function.update_of_ne isHere]
        exact stored other isOther

/-- The heap after any run holds the blocks of the program. -/
theorem represents_run (lawful : reclaimer.Lawful)
    (run : Relation.ReflTransGen (HeapStep config reclaimer) (jmemHeapInit config memory, [])
      (heap, store)) : Represents config heap store 0 0 := by
  have preserved : ∀ state, Relation.ReflTransGen (HeapStep config reclaimer)
      (jmemHeapInit config memory, []) state → Represents config state.1 state.2 0 0 := by
    intro state reached
    induction reached with
    | refl => exact ⟨_, tiled_jmemHeapInit memory, List.Perm.refl _, nofun⟩
    | tail _ step ih => exact step.represents lawful ih
  exact preserved _ run

/-- A small heap. -/
def smallConfig : JmemConfig where
  heapSize := 64
  gcLimit := 16
  aligned := by decide
  hasArea := by decide
  small := by decide
  limited := by decide

/-- Under high pressure the newest block is given up. -/
def dropNewest : Reclaimer Store where
  blocks
    | .low, _ => []
    | .high, store => (store.take 1).map fun block => (block.address, block.size)
  after
    | .low, store => store
    | .high, store => store.drop 1

theorem dropNewest_lawful : dropNewest.Lawful := by
  intro pressure store
  cases pressure with
  | low => exact ⟨[], List.Perm.refl _, rfl⟩
  | high => exact ⟨store.take 1, by rw [dropNewest, List.take_append_drop], rfl⟩

/-- A block is written to, and then it has to move to grow. -/
theorem smallConfig_run : ∃ heap first second, Relation.ReflTransGen
    (HeapStep smallConfig dropNewest) (jmemHeapInit smallConfig fun _ => 0, [])
      (heap, [first, second]) ∧ first.extent = (32, 16) ∧ second.extent = (16, 16) := by
  refine ⟨_, _, _, .head (.alloc 5 true (by decide) rfl) (.head (.alloc 10 true (by decide) rfl)
    (.head (.write 0 7 (List.Perm.swap _ _ _) (by decide)) (.head (.realloc 9 (List.Perm.refl _)
      (by decide) (by decide) rfl) .refl))), rfl, rfl⟩

/-- In every run the blocks of a program do not overlap, they are aligned and in the heap area,
they have the bytes that were written to them, and the counters agree with them. -/
theorem heap_sound (lawful : reclaimer.Lawful)
    (run : Relation.ReflTransGen (HeapStep config reclaimer) (jmemHeapInit config memory, [])
      (heap, store)) :
    (store.Pairwise fun left right => left.address + alignSize left.size ≤ right.address ∨
        right.address + alignSize right.size ≤ left.address) ∧
      (∀ block ∈ store, jmemAlignment ∣ block.address ∧ jmemAlignment ≤ block.address ∧
        block.address + alignSize block.size ≤ config.heapSize ∧ block.StoredIn heap.memory) ∧
      heap.allocatedSize = storeUsage store ∧ heap.allocatedSize ≤ heap.limit ∧
      heap.limit ≤ heap.allocatedSize + config.gcLimit := by
  have represents := represents_run lawful run
  have accounted := represents.accounted
  rcases represents with ⟨segments, tiled, isBlocks, stored⟩
  refine ⟨?_, fun block mem => ?_, accounted⟩
  · have ordered : (blocks jmemAlignment segments).Pairwise fun left right =>
        left.1 + left.2 ≤ right.1 ∨ right.1 + right.2 ≤ left.1 :=
      (blocks_pairwise jmemAlignment segments).imp .inl
    have apart := (isBlocks.pairwise_iff fun either => either.symm).mpr ordered
    exact List.pairwise_map.mp apart
  · have inBlocks := isBlocks.mem_iff.mp (List.mem_map_of_mem mem)
    have bounds := blocks_bounds inBlocks
    have whole := tiled.whole
    rcases exists_of_mem_blocks inBlocks with ⟨before, after, rfl, isAddress⟩
    refine ⟨?_, bounds.1, by omega, (stored block mem).2⟩
    rw [isAddress]
    exact Nat.dvd_add (Nat.dvd_refl _) (aligned_append.mp tiled.fits).1.dvd_length

theorem heap_sound_small : ∃ heap store, Relation.ReflTransGen (HeapStep smallConfig dropNewest)
    (jmemHeapInit smallConfig fun _ => 0, []) (heap, store) ∧ heap.allocatedSize = 32 ∧
      ∀ block ∈ store, jmemAlignment ∣ block.address ∧ block.StoredIn heap.memory := by
  rcases smallConfig_run with ⟨heap, first, second, run, isFirst, isSecond⟩
  rcases heap_sound dropNewest_lawful run with ⟨_, blocks, accounted, _⟩
  refine ⟨heap, [first, second], run, ?_, fun block mem =>
    ⟨(blocks block mem).1, (blocks block mem).2.2.2⟩⟩
  have firstSize := (Prod.mk.inj isFirst).2
  have secondSize := (Prod.mk.inj isSecond).2
  rw [accounted, storeUsage_cons, storeUsage_cons, firstSize, secondSize]
  rfl

/-- In every run an allocation succeeds if and only if, when all that can be freed is freed, a gap
between the blocks that are left is big enough. -/
theorem heap_alloc_iff (lawful : reclaimer.Lawful)
    (run : Relation.ReflTransGen (HeapStep config reclaimer) (jmemHeapInit config memory, [])
      (heap, store)) {size : ℕ} (positive : 0 < size) (isFatal : Bool) :
    ((∃ address final later, jmemHeapGcAndAllocBlock config reclaimer store heap size isFatal =
        .ok (some address, final, later)) ↔
      Room config (reclaimer.afterAll [.low, .high] store) (alignSize size)) ∧
    (¬Room config (reclaimer.afterAll [.low, .high] store) (alignSize size) →
      ∃ later, jmemHeapGcAndAllocBlock config reclaimer store heap size isFatal =
        if isFatal then .error .outOfMemory
        else .ok (none, reclaimer.afterAll [.low, .high] store, later)) := by
  rcases Represents.gcAndAlloc [] lawful isFatal (represents_run lawful run) positive
    (Nat.le_refl _) with ⟨noRoom, other, _, fails⟩ | ⟨room, address, final, later, succeeds, _⟩
  · refine ⟨⟨?_, fun room => absurd room noRoom⟩, fun _ => ⟨other, fails⟩⟩
    rintro ⟨address, final, later, succeeds⟩
    rw [succeeds] at fails
    split_ifs at fails
    cases fails
  · exact ⟨⟨fun _ => room, fun _ => ⟨address, final, later, succeeds⟩⟩,
      fun noRoom => absurd room noRoom⟩

theorem heap_alloc_iff_small : ∃ heap store, Relation.ReflTransGen
    (HeapStep smallConfig dropNewest) (jmemHeapInit smallConfig fun _ => 0, []) (heap, store) ∧
      ∃ address final later, jmemHeapGcAndAllocBlock smallConfig dropNewest store heap 24 true =
        .ok (some address, final, later) := by
  rcases smallConfig_run with ⟨heap, first, second, run, isFirst, isSecond⟩
  refine ⟨heap, [first, second], run,
    (heap_alloc_iff dropNewest_lawful run (by decide) true).1.mpr ?_⟩
  refine ⟨32, by decide, by decide, fun block mem => .inr ?_⟩
  have isBlock : block = second := List.mem_singleton.mp mem
  rw [isBlock, (Prod.mk.inj isSecond).1, (Prod.mk.inj isSecond).2]

/-- In every run a block can be freed, and it can be resized unless there is no room for the new
block beside the old one. -/
theorem heap_faultless (lawful : reclaimer.Lawful)
    (run : Relation.ReflTransGen (HeapStep config reclaimer) (jmemHeapInit config memory, [])
      (heap, store)) {rest : Store} (has : store.Perm (block :: rest)) :
    (∃ later, jmemHeapFreeBlockInternal config heap block.address block.size = .ok later) ∧
      ∀ size, 0 < size →
        (∃ address final later,
          jmemHeapReallocBlock config reclaimer rest heap block.address block.size size =
            .ok (address, final, later)) ∨
        jmemHeapReallocBlock config reclaimer rest heap block.address block.size size =
            .error .outOfMemory ∧
          ∃ kept, (∀ other ∈ kept, other ∈ rest) ∧
            ¬Room config (block :: reclaimer.afterAll [.low, .high] kept) (alignSize size) := by
  have represents := (represents_run lawful run).perm has
  constructor
  · rcases represents.free (Nat.zero_le _) with ⟨later, returns, _⟩
    exact ⟨later, returns⟩
  · intro size positive
    rcases represents.realloc lawful positive with ⟨fails, _, noRoom⟩ |
      ⟨address, final, later, succeeds, _⟩
    · exact .inr ⟨fails, noRoom⟩
    · exact .inl ⟨address, final, later, succeeds⟩

theorem heap_faultless_small : ∃ heap block rest, Relation.ReflTransGen
    (HeapStep smallConfig dropNewest) (jmemHeapInit smallConfig fun _ => 0, [])
      (heap, block :: rest) ∧
    ∃ later, jmemHeapFreeBlockInternal smallConfig heap block.address block.size = .ok later := by
  rcases smallConfig_run with ⟨heap, first, second, run, _, _⟩
  exact ⟨heap, first, [second], run,
    (heap_faultless dropNewest_lawful run (List.Perm.refl _)).1⟩

/-- When a program has given back all of its blocks, the heap is one free region again. -/
theorem heap_empty (lawful : reclaimer.Lawful)
    (run : Relation.ReflTransGen (HeapStep config reclaimer) (jmemHeapInit config memory, [])
      (heap, [])) :
    heap.allocatedSize = 0 ∧ nextOffset heap.memory 0 = offsetFromAddr jmemAlignment ∧
      regionSize heap.memory jmemAlignment = config.heapSize - jmemAlignment ∧
      nextOffset heap.memory jmemAlignment = jmemHeapEndOfList := by
  have hasArea := config.hasArea
  rcases represents_run lawful run with ⟨segments, tiled, isBlocks, _⟩
  have accounted := tiled.accounted
  have noBlocks : blocks jmemAlignment segments = [] := isBlocks.symm.eq_nil
  have whole := tiled.whole
  have isFree : ∃ size, segments = [.free size] := by
    cases segments with
    | nil =>
        rw [length_nil] at whole
        omega
    | cons first rest =>
        cases first with
        | used size => cases noBlocks
        | free size =>
            cases rest with
            | nil => exact ⟨size, rfl⟩
            | cons second rest =>
                have seam := (List.isChain_cons_cons.mp tiled.coalesced).1
                cases second with
                | used other => cases noBlocks
                | free other => simp [Segment.isFree] at seam
  rcases isFree with ⟨size, rfl⟩
  rcases tiled.freeList with ⟨⟨link, isSize, _⟩, ends⟩
  simp only [length_cons, Segment.size_free, length_nil] at whole
  refine ⟨by simpa only [usedLength, Nat.add_zero] using accounted, link, ?_, ends⟩
  rw [isSize]
  omega

theorem heap_empty_small : ∃ heap, Relation.ReflTransGen (HeapStep smallConfig dropNewest)
    (jmemHeapInit smallConfig fun _ => 0, []) (heap, []) ∧
      regionSize heap.memory jmemAlignment = 56 := by
  have run : ∃ heap, Relation.ReflTransGen (HeapStep smallConfig dropNewest)
      (jmemHeapInit smallConfig fun _ => 0, []) (heap, []) :=
    ⟨_, .head (.alloc 5 true (by decide) rfl) (.head (.alloc 10 true (by decide) rfl) (.head
      (.free (List.Perm.swap _ _ _) rfl) (.head (.free (List.Perm.refl _) rfl) .refl)))⟩
  rcases run with ⟨heap, run⟩
  exact ⟨heap, run, (heap_empty dropNewest_lawful run).2.2.1⟩

end Cmsframe
