import Mathlib.Data.List.Chain
import Cmsframe.LineInfo.Compaction
import Cmsframe.LineInfo.Emission

/-!
# What the generator leaves out

The generator leaves out a record that does not change the position, and one at the final offset
of the record kept before it. The second is meant for records whose byte code was discarded, but
what was discarded is the byte code between the two, and the later of them is left out.
-/

namespace Cmsframe

namespace LineRecord

/-- The same line and column. -/
def SamePosition (record other : LineRecord) : Prop :=
  record.line = other.line ∧ record.column = other.column

instance (record other : LineRecord) : Decidable (record.SamePosition other) :=
  inferInstanceAs (Decidable (_ ∧ _))

@[simp] theorem SamePosition.refl (record : LineRecord) : record.SamePosition record := ⟨rfl, rfl⟩

end LineRecord

/-- The positions the parser has recorded behind the first one, at their final offsets. -/
def recordedPositions (code : List CopiedByte) (call : LineRecord) (calls : List LineRecord) :
    List LineRecord :=
  (keptAfter call calls).map (LineRecord.placeIn code)

/-- The last record at or before an offset is left out, since it has come to the final offset of
the record kept before it, although it has another position. -/
def ShadowedIn : LineRecord → List LineRecord → UInt32 → Prop
  | _, [], _ => False
  | kept, record :: records, offset =>
    if record.SamePosition kept then
      ShadowedIn kept records offset
    else if record.offset = kept.offset then
      (record.offset ≤ offset ∧ ∀ next ∈ records.head?, offset < next.offset) ∨
        ShadowedIn kept records offset
    else
      ShadowedIn record records offset

section Positions

variable {kept current first : LineRecord} {records : List LineRecord} {offset : UInt32}

theorem keptAfter_cons (kept record : LineRecord) (records : List LineRecord) :
    keptAfter kept (record :: records) =
      if record.SamePosition kept ∨ record.offset = kept.offset then keptAfter kept records
      else record :: keptAfter record records := by
  simp only [keptAfter, LineRecord.SamePosition, eq_comm, or_comm]

theorem positionAt_eq_iff_samePosition :
    ((kept.line, kept.column) = (current.line, current.column)) ↔ current.SamePosition kept := by
  rw [Prod.mk.injEq, LineRecord.SamePosition, eq_comm, @eq_comm _ kept.column]

/-- In front of all records the first position is in force. -/
theorem positionAt_of_forall_lt (before : ∀ record ∈ records, offset < record.offset) :
    positionAt first records offset = (first.line, first.column) := by
  cases records with
  | nil => rfl
  | cons record records => rw [positionAt, if_pos (before record (List.mem_cons_self ..))]

theorem not_shadowedIn_of_forall_lt (before : ∀ record ∈ records, offset < record.offset) :
    ¬ShadowedIn kept records offset := by
  induction records generalizing kept with
  | nil => exact id
  | cons record records ih =>
      have later : ∀ record ∈ records, offset < record.offset :=
        fun record mem => before record (List.mem_cons_of_mem _ mem)
      have notYet : ¬record.offset ≤ offset :=
        UInt32.not_le.mpr (before record (List.mem_cons_self ..))
      rw [ShadowedIn]
      split_ifs
      · exact ih later
      · rintro (⟨reached, _⟩ | shadowed)
        · exact notYet reached
        · exact ih later shadowed
      · exact ih later

/-- The position that is kept against the recorded one, where `current` is the last record and
`kept` the last one that was kept. -/
theorem positionAt_keptAfter_iff_current
    (sorted : records.Pairwise fun earlier later => earlier.offset ≤ later.offset) :
    positionAt kept (keptAfter kept records) offset = positionAt current records offset ↔
      ¬((¬current.SamePosition kept ∧ ∀ next ∈ records.head?, offset < next.offset) ∨
        ShadowedIn kept records offset) := by
  induction records generalizing kept current with
  | nil =>
      rw [keptAfter, positionAt, positionAt, positionAt_eq_iff_samePosition, ShadowedIn]
      simp
  | cons record records ih =>
      rw [List.pairwise_cons] at sorted
      by_cases before : offset < record.offset
      · have all : ∀ other ∈ record :: records, offset < other.offset := by
          intro other mem
          rcases List.mem_cons.mp mem with rfl | mem
          · exact before
          · exact UInt32.lt_of_lt_of_le before (sorted.1 other mem)
        rw [positionAt_of_forall_lt all, positionAt_of_forall_lt, positionAt_eq_iff_samePosition]
        · simp [not_shadowedIn_of_forall_lt all, before]
        · exact fun other mem => all other ((keptAfter_sublist kept _).subset mem)
      · have reached : record.offset ≤ offset := UInt32.not_lt.mp before
        have isCurrent : positionAt current (record :: records) offset =
            positionAt record records offset := if_neg before
        rw [isCurrent, keptAfter_cons, ShadowedIn]
        by_cases same : record.SamePosition kept
        · rw [if_pos (.inl same), ih sorted.2]
          simp [same, before]
        · by_cases atKept : record.offset = kept.offset
          · rw [if_pos (.inr atKept), ih sorted.2]
            rw [if_neg same, if_pos atKept]
            simp [same, before, reached]
          · rw [if_neg (by simp [same, atKept]), positionAt, if_neg before, ih sorted.2]
            rw [if_neg same, if_neg atKept]
            simp [before]

/-- The positions that are kept are the recorded ones, except where one is shadowed. -/
theorem positionAt_keptAfter_iff
    (sorted : records.Pairwise fun earlier later => earlier.offset ≤ later.offset) :
    positionAt first (keptAfter first records) offset = positionAt first records offset ↔
      ¬ShadowedIn first records offset := by
  rw [positionAt_keptAfter_iff_current sorted]
  simp

/-- The byte between the second and the third record is removed, and the third is left out. -/
example :
    let code := (List.range 8).map fun index => (⟨index ≠ 5, false⟩ : CopiedByte)
    let recorded := recordedPositions code ⟨0, 1, 1⟩ [⟨5, 2, 1⟩, ⟨6, 3, 1⟩]
    positionAt ⟨0, 1, 1⟩ recorded 5 = (3, 1) ∧
      positionAt ⟨0, 1, 1⟩ (keptAfter ⟨0, 1, 1⟩ recorded) 5 = (2, 1) := by
  decide

/-- Nothing is left out where each record has a later offset and another position than the one
before. -/
theorem keptAfter_eq_self
    (apart : List.IsChain (fun earlier later : LineRecord => later.offset ≠ earlier.offset)
      (first :: records))
    (changing : List.IsChain (fun earlier later : LineRecord => ¬later.SamePosition earlier)
      (first :: records)) : keptAfter first records = records := by
  induction records generalizing first with
  | nil => rfl
  | cons record records ih =>
      rw [List.isChain_cons_cons] at apart changing
      rw [keptAfter_cons, if_neg (not_or.mpr ⟨changing.1, apart.1⟩), ih apart.2 changing.2]

/-- Each record that is kept has another position than the one before. -/
theorem isChain_keptAfter (first : LineRecord) (records : List LineRecord) :
    List.IsChain (fun earlier later : LineRecord => ¬later.SamePosition earlier)
      (first :: keptAfter first records) := by
  induction records generalizing first with
  | nil => exact .singleton first
  | cons record records ih =>
      rw [keptAfter_cons]
      split_ifs with skipped
      · exact ih first
      · exact List.isChain_cons_cons.mpr ⟨fun same => skipped (.inl same), ih record⟩

end Positions

end Cmsframe
