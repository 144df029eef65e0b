import Mathlib.Data.List.Chain
import Mathlib.Tactic.Common
import Mathlib.Algebra.Ring.Nat

/-!
# Tilings

A stretch of memory as the list of its segments, which are free or used. Segments follow one
another, so they cannot overlap, and an allocator only ever replaces some of them by others of
the same length. In a tiling where no two free segments meet, a gap between used segments lies
in one free segment.
-/

namespace Tiling

/-- A stretch of memory of some size. -/
inductive Segment where
  | free (size : ℕ)
  | used (size : ℕ)
  deriving DecidableEq

namespace Segment

def size : Segment → ℕ
  | free size => size
  | used size => size

def isFree : Segment → Bool
  | free _ => true
  | used _ => false

@[simp] theorem size_free (size : ℕ) : (free size).size = size := rfl
@[simp] theorem size_used (size : ℕ) : (used size).size = size := rfl

end Segment

/-- The length of the memory that segments take up. -/
def length : List Segment → ℕ
  | [] => 0
  | segment :: segments => segment.size + length segments

/-- The used segments, with their addresses. -/
def blocks : ℕ → List Segment → List (ℕ × ℕ)
  | _, [] => []
  | address, .free size :: segments => blocks (address + size) segments
  | address, .used size :: segments => (address, size) :: blocks (address + size) segments

/-- The free segments, with their addresses. -/
def regions : ℕ → List Segment → List (ℕ × ℕ)
  | _, [] => []
  | address, .free size :: segments => (address, size) :: regions (address + size) segments
  | address, .used size :: segments => regions (address + size) segments

/-- The memory that is in use. -/
def usedLength : List Segment → ℕ
  | [] => 0
  | .free _ :: segments => usedLength segments
  | .used size :: segments => size + usedLength segments

/-- No two free segments meet. -/
def Coalesced (segments : List Segment) : Prop :=
  segments.IsChain fun left right => left.isFree = false ∨ right.isFree = false

/-- All sizes are positive multiples of a unit. -/
def Aligned (unit : ℕ) (segments : List Segment) : Prop :=
  ∀ segment ∈ segments, 0 < segment.size ∧ unit ∣ segment.size

variable {segments before after left right : List Segment} {address block size unit : ℕ}

@[simp] theorem length_nil : length [] = 0 := rfl
@[simp] theorem length_cons (segment : Segment) (segments : List Segment) :
    length (segment :: segments) = segment.size + length segments := rfl

@[simp] theorem length_append (left right : List Segment) :
    length (left ++ right) = length left + length right := by
  induction left with
  | nil => simp
  | cons segment left ih => simp [ih, Nat.add_assoc]

@[simp] theorem blocks_append (address : ℕ) (left right : List Segment) :
    blocks address (left ++ right) = blocks address left ++ blocks (address + length left) right := by
  induction left generalizing address with
  | nil => rfl
  | cons segment left ih => cases segment <;> simp [blocks, ih, Nat.add_assoc]

@[simp] theorem regions_append (address : ℕ) (left right : List Segment) :
    regions address (left ++ right) =
      regions address left ++ regions (address + length left) right := by
  induction left generalizing address with
  | nil => rfl
  | cons segment left ih => cases segment <;> simp [regions, ih, Nat.add_assoc]

@[simp] theorem usedLength_append (left right : List Segment) :
    usedLength (left ++ right) = usedLength left + usedLength right := by
  induction left with
  | nil => simp [usedLength]
  | cons segment left ih => cases segment <;> simp [usedLength, ih, Nat.add_assoc]

theorem usedLength_eq_sum (address : ℕ) (segments : List Segment) :
    usedLength segments = ((blocks address segments).map Prod.snd).sum := by
  induction segments generalizing address with
  | nil => rfl
  | cons segment segments ih =>
      cases segment with
      | free size => rw [usedLength, blocks, ih]
      | used size => rw [usedLength, blocks, ih (address + size), List.map_cons, List.sum_cons]

theorem aligned_append : Aligned unit (left ++ right) ↔ Aligned unit left ∧ Aligned unit right :=
  List.forall_mem_append

theorem aligned_cons {segment : Segment} :
    Aligned unit (segment :: segments) ↔
      (0 < segment.size ∧ unit ∣ segment.size) ∧ Aligned unit segments :=
  List.forall_mem_cons

theorem Aligned.dvd_length (aligned : Aligned unit segments) : unit ∣ length segments := by
  induction segments with
  | nil => exact Nat.dvd_zero unit
  | cons segment segments ih =>
      rcases aligned_cons.mp aligned with ⟨⟨_, divides⟩, rest⟩
      exact Nat.dvd_add divides (ih rest)

theorem Aligned.eq_nil (aligned : Aligned unit segments) (isEmpty : length segments = 0) :
    segments = [] := by
  cases segments with
  | nil => rfl
  | cons segment segments =>
      have positive := (aligned_cons.mp aligned).1.1
      rw [length_cons] at isEmpty
      omega

/-- Blocks are inside the memory. -/
theorem blocks_bounds (mem : (block, size) ∈ blocks address segments) :
    address ≤ block ∧ block + size ≤ address + length segments := by
  induction segments generalizing address with
  | nil => cases mem
  | cons segment segments ih =>
      cases segment with
      | free other =>
          have bounds := ih mem
          simp only [length_cons, Segment.size_free]
          omega
      | used other =>
          simp only [length_cons, Segment.size_used]
          rcases List.mem_cons.mp mem with isFirst | inRest
          · cases isFirst
            omega
          · have bounds := ih inRest
            omega

/-- Blocks do not overlap. -/
theorem blocks_pairwise (address : ℕ) (segments : List Segment) :
    (blocks address segments).Pairwise fun left right => left.1 + left.2 ≤ right.1 := by
  induction segments generalizing address with
  | nil => exact List.Pairwise.nil
  | cons segment segments ih =>
      cases segment with
      | free size => exact ih (address + size)
      | used size =>
          refine List.Pairwise.cons ?_ (ih (address + size))
          rintro ⟨block, other⟩ mem
          exact (blocks_bounds mem).1

/-- Where a block is in the tiling. -/
theorem exists_of_mem_blocks (mem : (block, size) ∈ blocks address segments) :
    ∃ before after, segments = before ++ .used size :: after ∧
      block = address + length before := by
  induction segments generalizing address with
  | nil => cases mem
  | cons segment segments ih =>
      cases segment with
      | free other =>
          rcases ih mem with ⟨before, after, rfl, rfl⟩
          exact ⟨.free other :: before, after, rfl, by simp [Nat.add_assoc]⟩
      | used other =>
          rcases List.mem_cons.mp mem with isFirst | inRest
          · cases isFirst
            exact ⟨[], segments, rfl, rfl⟩
          · rcases ih inRest with ⟨before, after, rfl, rfl⟩
            exact ⟨.used other :: before, after, rfl, by simp [Nat.add_assoc]⟩

/-- Free segments are inside the memory. -/
theorem regions_bounds (mem : (block, size) ∈ regions address segments) :
    address ≤ block ∧ block + size ≤ address + length segments := by
  induction segments generalizing address with
  | nil => cases mem
  | cons segment segments ih =>
      cases segment with
      | used other =>
          have bounds := ih mem
          simp only [length_cons, Segment.size_used]
          omega
      | free other =>
          simp only [length_cons, Segment.size_free]
          rcases List.mem_cons.mp mem with isFirst | inRest
          · cases isFirst
            omega
          · have bounds := ih inRest
            omega

/-- Where a free segment is in the tiling. -/
theorem exists_of_mem_regions (mem : (block, size) ∈ regions address segments) :
    ∃ before after, segments = before ++ .free size :: after ∧
      block = address + length before := by
  induction segments generalizing address with
  | nil => cases mem
  | cons segment segments ih =>
      cases segment with
      | used other =>
          rcases ih mem with ⟨before, after, rfl, rfl⟩
          exact ⟨.used other :: before, after, rfl, by simp [Nat.add_assoc]⟩
      | free other =>
          rcases List.mem_cons.mp mem with isFirst | inRest
          · cases isFirst
            exact ⟨[], segments, rfl, rfl⟩
          · rcases ih inRest with ⟨before, after, rfl, rfl⟩
            exact ⟨.free other :: before, after, rfl, by simp [Nat.add_assoc]⟩

/-- Used and free segments do not overlap. -/
theorem blocks_apart_regions {region other : ℕ} (blockMem : (block, size) ∈ blocks address segments)
    (regionMem : (region, other) ∈ regions address segments) :
    block + size ≤ region ∨ region + other ≤ block := by
  rcases exists_of_mem_blocks blockMem with ⟨before, after, rfl, rfl⟩
  rw [regions_append, List.mem_append] at regionMem
  rcases regionMem with inBefore | inAfter
  · exact .inr (regions_bounds inBefore).2
  · have inRest : (region, other) ∈ regions (address + length before + size) after := inAfter
    exact .inl (regions_bounds inRest).1

/-- A gap between the used segments lies in one free segment. -/
theorem exists_region_of_gap (coalesced : Coalesced segments) (aligned : Aligned unit segments)
    (positive : 0 < size) (lower : address ≤ block)
    (upper : block + size ≤ address + length segments)
    (apart : ∀ other ∈ blocks address segments,
      block + size ≤ other.1 ∨ other.1 + other.2 ≤ block) :
    ∃ region ∈ regions address segments, region.1 ≤ block ∧
      block + size ≤ region.1 + region.2 := by
  induction segments generalizing address with
  | nil =>
      simp only [length_nil] at upper
      omega
  | cons segment segments ih =>
      rcases aligned_cons.mp aligned with ⟨⟨segmentPositive, _⟩, restAligned⟩
      have restCoalesced : Coalesced segments := coalesced.tail
      simp only [length_cons] at upper
      cases segment with
      | used other =>
          simp only [Segment.size_used] at segmentPositive upper
          have first := apart (address, other) List.mem_cons_self
          exact ih restCoalesced restAligned (by omega) (by omega) fun block mem =>
            apart block (List.mem_cons_of_mem _ mem)
      | free other =>
          simp only [Segment.size_free] at segmentPositive upper
          by_cases inside : block + size ≤ address + other
          · exact ⟨(address, other), List.mem_cons_self, lower, inside⟩
          · by_cases behind : address + other ≤ block
            · rcases ih restCoalesced restAligned behind (by omega) apart with
                ⟨region, mem, bounds⟩
              exact ⟨region, List.mem_cons_of_mem _ mem, bounds⟩
            · cases segments with
              | nil =>
                  simp only [length_nil] at upper
                  omega
              | cons next segments =>
                  rcases aligned_cons.mp restAligned with ⟨⟨nextPositive, _⟩, _⟩
                  cases next with
                  | free _ =>
                      have meet := (List.isChain_cons_cons.mp coalesced).1
                      simp [Segment.isFree] at meet
                  | used third =>
                      simp only [Segment.size_used] at nextPositive
                      have overlap := apart (address + other, third) List.mem_cons_self
                      simp only at overlap
                      omega

/-- Free memory of some size, of which the front is taken. -/
def carve (size taken : ℕ) : List Segment :=
  if taken < size then [.used taken, .free (size - taken)] else [.used taken]

/-- The segments in front of memory that becomes free, and the free segment before it. -/
def mergeLeft (before : List Segment) : List Segment × ℕ :=
  match before.getLast? with
  | some (.free size) => (before.dropLast, size)
  | _ => (before, 0)

/-- The free segment after memory that becomes free, and the segments behind it. -/
def mergeRight : List Segment → ℕ × List Segment
  | .free size :: after => (size, after)
  | after => (0, after)

/-- Memory becomes free between some segments. -/
def release (before : List Segment) (size : ℕ) (after : List Segment) : List Segment :=
  (mergeLeft before).1 ++
    .free ((mergeLeft before).2 + size + (mergeRight after).1) :: (mergeRight after).2

theorem mergeLeft_cases (before : List Segment) :
    (mergeLeft before = (before, 0) ∧ ∀ last ∈ before.getLast?, last.isFree = false) ∨
      ∃ front size, before = front ++ [.free size] ∧ mergeLeft before = (front, size) := by
  rcases List.eq_nil_or_concat before with rfl | ⟨front, last, rfl⟩
  · exact .inl ⟨rfl, by simp⟩
  · rw [List.concat_eq_append]
    cases last with
    | free size => exact .inr ⟨front, size, rfl, by simp [mergeLeft]⟩
    | used size =>
        exact .inl ⟨by simp [mergeLeft], by simp [Segment.isFree]⟩

theorem mergeRight_cases (after : List Segment) :
    (mergeRight after = (0, after) ∧ ∀ first ∈ after.head?, first.isFree = false) ∨
      ∃ size rest, after = .free size :: rest ∧ mergeRight after = (size, rest) := by
  cases after with
  | nil => exact .inl ⟨rfl, by simp⟩
  | cons first rest =>
      cases first with
      | free size => exact .inr ⟨size, rest, rfl, rfl⟩
      | used size => exact .inl ⟨rfl, by simp [Segment.isFree]⟩

/-- What becomes of a tiling when memory becomes free in it. -/
theorem release_spec (before after : List Segment) (address size : ℕ) :
    length (release before size after) = length before + size + length after ∧
      blocks address (release before size after) =
        blocks address before ++ blocks (address + length before + size) after ∧
      usedLength (release before size after) = usedLength before + usedLength after := by
  rcases mergeLeft_cases before with ⟨isLeft, _⟩ | ⟨front, first, rfl, isLeft⟩ <;>
    rcases mergeRight_cases after with ⟨isRight, _⟩ | ⟨last, rest, rfl, isRight⟩ <;>
    simp [release, isLeft, isRight, blocks, usedLength, Nat.add_assoc]

theorem aligned_release (positive : 0 < size) (divides : unit ∣ size)
    (alignedBefore : Aligned unit before) (alignedAfter : Aligned unit after) :
    Aligned unit (release before size after) := by
  have left : Aligned unit (mergeLeft before).1 ∧ unit ∣ (mergeLeft before).2 := by
    rcases mergeLeft_cases before with ⟨isLeft, _⟩ | ⟨front, first, rfl, isLeft⟩
    · rw [isLeft]
      exact ⟨alignedBefore, Nat.dvd_zero unit⟩
    · rw [isLeft]
      rcases aligned_append.mp alignedBefore with ⟨alignedFront, alignedLast⟩
      exact ⟨alignedFront, (aligned_cons.mp alignedLast).1.2⟩
  have right : Aligned unit (mergeRight after).2 ∧ unit ∣ (mergeRight after).1 := by
    rcases mergeRight_cases after with ⟨isRight, _⟩ | ⟨last, rest, rfl, isRight⟩
    · rw [isRight]
      exact ⟨alignedAfter, Nat.dvd_zero unit⟩
    · rw [isRight]
      rcases aligned_cons.mp alignedAfter with ⟨⟨_, lastDivides⟩, alignedRest⟩
      exact ⟨alignedRest, lastDivides⟩
  refine aligned_append.mpr ⟨left.1, aligned_cons.mpr ⟨⟨?_, ?_⟩, right.1⟩⟩
  · simp only [Segment.size_free]
    omega
  · exact Nat.dvd_add (Nat.dvd_add left.2 divides) right.2

theorem coalesced_release (coalescedBefore : Coalesced before) (coalescedAfter : Coalesced after) :
    Coalesced (release before size after) := by
  have left : Coalesced (mergeLeft before).1 ∧
      ∀ last ∈ (mergeLeft before).1.getLast?, last.isFree = false := by
    rcases mergeLeft_cases before with ⟨isLeft, last⟩ | ⟨front, first, rfl, isLeft⟩
    · rw [isLeft]
      exact ⟨coalescedBefore, last⟩
    · rw [isLeft]
      rcases List.isChain_append.mp coalescedBefore with ⟨coalescedFront, _, seam⟩
      refine ⟨coalescedFront, fun last isLast => ?_⟩
      simpa [Segment.isFree] using seam last isLast (.free first) rfl
  have right : Coalesced (mergeRight after).2 ∧
      ∀ first ∈ (mergeRight after).2.head?, first.isFree = false := by
    rcases mergeRight_cases after with ⟨isRight, first⟩ | ⟨last, rest, rfl, isRight⟩
    · rw [isRight]
      exact ⟨coalescedAfter, first⟩
    · rw [isRight]
      rcases List.isChain_cons.mp coalescedAfter with ⟨seam, coalescedRest⟩
      refine ⟨coalescedRest, fun first isFirst => ?_⟩
      simpa [Segment.isFree] using seam first isFirst
  refine left.1.append (List.isChain_cons.mpr ⟨fun first isFirst => .inr (right.2 first isFirst),
    right.1⟩) fun last isLast _ _ => .inl (left.2 last isLast)

/-- What becomes of a free segment when its front is taken. -/
theorem carve_spec {taken : ℕ} (address : ℕ) (fits : taken ≤ size) :
    length (carve size taken) = size ∧ blocks address (carve size taken) = [(address, taken)] ∧
      usedLength (carve size taken) = taken := by
  rw [carve]
  split_ifs with isLarger
  · refine ⟨?_, rfl, rfl⟩
    simp only [length_cons, Segment.size_used, Segment.size_free, length_nil]
    omega
  · refine ⟨?_, rfl, rfl⟩
    simp only [length_cons, Segment.size_used, length_nil]
    omega

theorem aligned_carve {taken : ℕ} (positive : 0 < taken) (takenDivides : unit ∣ taken)
    (divides : unit ∣ size) : Aligned unit (carve size taken) := by
  rw [carve]
  split_ifs with isLarger
  · refine aligned_cons.mpr ⟨⟨positive, takenDivides⟩, aligned_cons.mpr ⟨⟨?_, ?_⟩, nofun⟩⟩
    · simp only [Segment.size_free]
      omega
    · exact Nat.dvd_sub divides takenDivides
  · exact aligned_cons.mpr ⟨⟨positive, takenDivides⟩, nofun⟩

/-- Where a used segment is divided does not matter. -/
theorem coalesced_used (size other : ℕ) :
    Coalesced (before ++ .used size :: .used other :: after) ↔
      Coalesced (before ++ .used (size + other) :: after) := by
  simp [Coalesced, List.isChain_append, List.isChain_cons, Segment.isFree]

/-- Taking the front of a free segment leaves no two free segments side by side. -/
theorem coalesced_carve {taken : ℕ}
    (coalesced : Coalesced (before ++ .free size :: after)) :
    Coalesced (before ++ (carve size taken ++ after)) := by
  rcases List.isChain_append.mp coalesced with ⟨coalescedBefore, coalescedRest, _⟩
  rcases List.isChain_cons.mp coalescedRest with ⟨seam, coalescedAfter⟩
  have carved : Coalesced (carve size taken ++ after) := by
    rw [carve]
    split_ifs
    · exact List.isChain_cons_cons.mpr ⟨.inl rfl, List.isChain_cons.mpr ⟨fun first isFirst =>
        seam first isFirst, coalescedAfter⟩⟩
    · exact List.isChain_cons.mpr ⟨fun _ _ => .inl rfl, coalescedAfter⟩
  refine coalescedBefore.append carved fun _ _ first isFirst => .inr ?_
  rw [carve] at isFirst
  split_ifs at isFirst <;>
    · cases isFirst
      rfl

end Tiling
