import Cmsframe.Library.Tiling
import Cmsframe.Memory.Heap

/-!
# The free list in memory

How the free list describes a tiling of the heap area: the free segments are linked one after
another, and each header has the size of its segment. A tiling can be cut anywhere. The part in
front is linked up to its last region, and the part behind continues from there. So an operation
in the middle has to do with the two seams only.
-/

namespace Cmsframe

open ByteMemory Tiling

/-- The last free segment, or the node before the segments. -/
def lastRegion : ℕ → ℕ → List Segment → ℕ
  | previous, _, [] => previous
  | previous, address, .used size :: segments => lastRegion previous (address + size) segments
  | _, address, .free size :: segments => lastRegion address (address + size) segments

/-- The free segments are linked, from a node before them on. -/
def Linked (memory : Memory) : ℕ → ℕ → List Segment → Prop
  | _, _, [] => True
  | previous, address, .used size :: segments => Linked memory previous (address + size) segments
  | previous, address, .free size :: segments =>
      nextOffset memory previous = offsetFromAddr address ∧ regionSize memory address = size ∧
        Linked memory address (address + size) segments

/-- The free segments are linked, and the last one ends the list. -/
def FreeList (memory : Memory) (previous address : ℕ) (segments : List Segment) : Prop :=
  Linked memory previous address segments ∧
    nextOffset memory (lastRegion previous address segments) = jmemHeapEndOfList

variable {memory later : Memory} {previous address : ℕ} {segments before after : List Segment}

theorem lastRegion_append (previous address : ℕ) (before after : List Segment) :
    lastRegion previous address (before ++ after) =
      lastRegion (lastRegion previous address before) (address + length before) after := by
  induction before generalizing previous address with
  | nil => rfl
  | cons segment before ih => cases segment <;> simp [lastRegion, ih, Nat.add_assoc]

theorem linked_append (previous address : ℕ) (before after : List Segment) :
    Linked memory previous address (before ++ after) ↔ Linked memory previous address before ∧
      Linked memory (lastRegion previous address before) (address + length before) after := by
  induction before generalizing previous address with
  | nil => simp [Linked, lastRegion]
  | cons segment before ih =>
      cases segment <;> simp [Linked, lastRegion, ih, Nat.add_assoc, and_assoc]

theorem freeList_append (previous address : ℕ) (before after : List Segment) :
    FreeList memory previous address (before ++ after) ↔ Linked memory previous address before ∧
      FreeList memory (lastRegion previous address before) (address + length before) after := by
  simp only [FreeList, linked_append, lastRegion_append, and_assoc]

/-- The last region is the node before, or it is followed by used segments only. -/
theorem lastRegion_cases (previous address : ℕ) (segments : List Segment) :
    (lastRegion previous address segments = previous ∧ regions address segments = []) ∨
      ∃ front size back, segments = front ++ .free size :: back ∧
        lastRegion previous address segments = address + length front ∧
        regions (address + length front + size) back = [] := by
  induction segments generalizing previous address with
  | nil => exact .inl ⟨rfl, rfl⟩
  | cons segment segments ih =>
      cases segment with
      | used size =>
          rcases ih previous (address + size) with ⟨isPrevious, none⟩ |
            ⟨front, last, back, rfl, isLast, none⟩
          · exact .inl ⟨isPrevious, none⟩
          · right
            refine ⟨.used size :: front, last, back, rfl, ?_, ?_⟩
            · simp only [lastRegion, length_cons, Segment.size_used, isLast, Nat.add_assoc]
            · simpa only [length_cons, Segment.size_used, Nat.add_assoc] using none
      | free size =>
          rcases ih address (address + size) with ⟨isPrevious, none⟩ |
            ⟨front, last, back, rfl, isLast, none⟩
          · exact .inr ⟨[], size, segments, rfl, by simpa [lastRegion] using isPrevious,
              by simpa using none⟩
          · right
            refine ⟨.free size :: front, last, back, rfl, ?_, ?_⟩
            · simp only [lastRegion, length_cons, Segment.size_free, isLast, Nat.add_assoc]
            · simpa only [length_cons, Segment.size_free, Nat.add_assoc] using none

/-- Sizes are multiples of the alignment, which is the size of a header. -/
abbrev Fits (segments : List Segment) : Prop := Aligned jmemAlignment segments

theorem Fits.size_le {segment : Segment} (fits : Fits segments) (mem : segment ∈ segments) :
    jmemAlignment ≤ segment.size :=
  Nat.le_of_dvd (fits segment mem).1 (fits segment mem).2

theorem lastRegion_bounds (previous address : ℕ) (fits : Fits segments) :
    lastRegion previous address segments = previous ∨
      address ≤ lastRegion previous address segments ∧
        lastRegion previous address segments + jmemAlignment ≤ address + length segments := by
  rcases lastRegion_cases previous address segments with ⟨isPrevious, _⟩ |
    ⟨front, size, back, rfl, isLast, _⟩
  · exact .inl isPrevious
  · have large := fits.size_le (List.mem_append_right front List.mem_cons_self)
    simp only [Segment.size_free] at large
    simp only [isLast, length_append, length_cons, Segment.size_free]
    omega

/-- Links in front of a change: only the last header may have changed, and only its link. -/
theorem Linked.congr (fits : Fits segments) (apart : previous + jmemAlignment ≤ address)
    (same : ∀ byte, (previous ≤ byte ∧ byte < previous + 4) ∨
        (address ≤ byte ∧ byte < address + length segments) →
      ¬(lastRegion previous address segments ≤ byte ∧
        byte < lastRegion previous address segments + 4) → later byte = memory byte)
    (linked : Linked memory previous address segments) :
    Linked later previous address segments := by
  induction segments generalizing previous address with
  | nil => trivial
  | cons segment segments ih =>
      rcases aligned_cons.mp fits with ⟨_, restFits⟩
      have large := fits.size_le List.mem_cons_self
      rw [jmemAlignment] at apart large
      cases segment with
      | used size =>
          simp only [Segment.size_used] at large
          refine ih restFits (by rw [jmemAlignment]; omega) (fun byte range notLast => ?_) linked
          refine same byte ?_ notLast
          simp only [length_cons, Segment.size_used]
          omega
      | free size =>
          simp only [Segment.size_free] at large
          rcases linked with ⟨link, isSize, rest⟩
          have bounds := lastRegion_bounds address (address + size) restFits
          simp only [lastRegion, length_cons, Segment.size_free] at same
          rw [jmemAlignment] at bounds
          refine ⟨?_, ?_, ih restFits (by rw [jmemAlignment]; omega) (fun byte range notLast => ?_)
            rest⟩
          · rw [← link, nextOffset, nextOffset]
            exact readWord_congr fun byte lower upper => same byte (by omega) (by omega)
          · rw [← isSize, regionSize, regionSize]
            exact readWord_congr fun byte lower upper => same byte (by omega) (by omega)
          · exact same byte (by omega) notLast

/-- The free list behind a change: another node may lead to it. -/
theorem FreeList.congr {other : ℕ} (fits : Fits segments)
    (link : nextOffset later other = nextOffset memory previous)
    (same : ∀ byte, address ≤ byte → byte < address + length segments →
      later byte = memory byte)
    (freeList : FreeList memory previous address segments) :
    FreeList later other address segments := by
  induction segments generalizing previous other address with
  | nil => exact ⟨trivial, link.trans freeList.2⟩
  | cons segment segments ih =>
      rcases aligned_cons.mp fits with ⟨_, restFits⟩
      have large := fits.size_le List.mem_cons_self
      rw [jmemAlignment] at large
      cases segment with
      | used size =>
          simp only [Segment.size_used] at large
          refine ih restFits link (fun byte lower upper => ?_) freeList
          refine same byte (by omega) ?_
          simp only [length_cons, Segment.size_used]
          omega
      | free size =>
          simp only [Segment.size_free] at large
          simp only [length_cons, Segment.size_free] at same
          rcases freeList with ⟨⟨isLinked, isSize, rest⟩, ends⟩
          have header : nextOffset later address = nextOffset memory address :=
            readWord_congr fun byte lower upper => same byte (by omega) (by omega)
          have restList := ih restFits header
            (fun byte lower upper => same byte (by omega) (by omega)) ⟨rest, ends⟩
          refine ⟨⟨link.trans isLinked, ?_, restList.1⟩, restList.2⟩
          rw [← isSize, regionSize, regionSize]
          exact readWord_congr fun byte lower upper => same byte (by omega) (by omega)

/-- The free list does not depend on the bytes of used segments. -/
theorem FreeList.congr_regions (fits : Fits segments)
    (link : nextOffset later previous = nextOffset memory previous)
    (same : ∀ region ∈ regions address segments, ∀ byte, region.1 ≤ byte →
      byte < region.1 + region.2 → later byte = memory byte)
    (freeList : FreeList memory previous address segments) :
    FreeList later previous address segments := by
  induction segments generalizing previous address with
  | nil => exact ⟨trivial, link.trans freeList.2⟩
  | cons segment segments ih =>
      rcases aligned_cons.mp fits with ⟨_, restFits⟩
      have large := fits.size_le List.mem_cons_self
      rw [jmemAlignment] at large
      cases segment with
      | used size => exact ih restFits link same freeList
      | free size =>
          simp only [Segment.size_free] at large
          rcases freeList with ⟨⟨isLinked, isSize, rest⟩, ends⟩
          have here := same (address, size) List.mem_cons_self
          simp only at here
          have header : nextOffset later address = nextOffset memory address :=
            readWord_congr fun byte lower upper => here byte (by omega) (by omega)
          have restList := ih restFits header
            (fun region mem => same region (List.mem_cons_of_mem _ mem)) ⟨rest, ends⟩
          refine ⟨⟨link.trans isLinked, ?_, restList.1⟩, restList.2⟩
          rw [← isSize, regionSize, regionSize]
          exact readWord_congr fun byte lower upper => here byte (by omega) (by omega)

/-- Where a used segment is divided does not matter. -/
theorem freeList_used (size other : ℕ) :
    FreeList memory previous address (before ++ .used size :: .used other :: after) ↔
      FreeList memory previous address (before ++ .used (size + other) :: after) := by
  rw [freeList_append, freeList_append]
  simp only [FreeList, Linked, lastRegion, Nat.add_assoc]

end Cmsframe
