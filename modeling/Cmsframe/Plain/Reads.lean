import Cmsframe.Plain.Heap

/-!
# Reading a plain heap

The serialiser asks for the keys of an object and reads them one after the other. These
facts say that what it gets are the children of the cell, in their order, and that they
are plain values again.
-/

namespace Cmsframe

open Interaction
open Unicode (CodeUnit asciiUnits)

/-- The decimal form of a 32-bit number is recognised. -/
theorem ecmaStringToArrayIndex_decimal {index : ℕ} (small : index < 2 ^ 32) :
    ecmaStringToArrayIndex (Decimal.decimal index) = some index := by
  have digits : ∀ byte ∈ Decimal.decimal index, Decimal.IsDigit byte := fun byte mem =>
    Decimal.isDigit_of_mem_decimal mem
  have short : (Decimal.decimal index).length ≤ 10 :=
    Decimal.length_decimal_le (by norm_num) (by omega)
  have leading : ∀ first rest, Decimal.decimal index = first :: rest → index ≠ 0 →
      first ≠ 0x30 := by
    intro first rest isCons positive
    simpa [isCons] using Decimal.head_decimal_ne_zero positive
  have total : Decimal.value (Decimal.decimal index) = index := Decimal.value_decimal index
  have notNil := Decimal.decimal_ne_nil index
  have zero : index = 0 → Decimal.decimal index = [0x30] := by
    rintro rfl
    rfl
  generalize Decimal.decimal index = bytes at *
  rcases bytes with _ | ⟨first, rest⟩
  · exact absurd rfl notNil
  · simp only [ecmaStringToArrayIndex, List.all_eq_true, decide_eq_true_eq]
    by_cases isZero : index = 0
    · obtain ⟨rfl, rfl⟩ := List.cons.inj (zero isZero)
      simp [isZero]
    · have notZero : first ≠ 0x30 := leading first rest rfl isZero
      rw [if_neg notZero, if_neg (by omega), if_pos digits]
      split_ifs with nine overflow
      · rw [total]
      · exfalso
        have split := List.dropLast_append_getLast notNil
        have appended := Decimal.value_append_singleton (first :: rest).dropLast
          ((first :: rest).getLast notNil)
        rw [split, total] at appended
        have last : (first :: rest).getLastD 0 = (first :: rest).getLast notNil := by
          rw [List.getLastD_eq_getLast?, List.getLast?_eq_some_getLast notNil, Option.getD_some]
        have lastDigit : 0x30 ≤ ((first :: rest).getLast notNil).toNat ∧
            ((first :: rest).getLast notNil).toNat ≤ 0x39 := digits _ (List.getLast_mem notNil)
        rw [last] at overflow
        omega
      · have split := List.dropLast_append_getLast notNil
        have appended := Decimal.value_append_singleton (first :: rest).dropLast
          ((first :: rest).getLast notNil)
        rw [split, total] at appended
        have last : (first :: rest).getLastD 0 = (first :: rest).getLast notNil := by
          rw [List.getLastD_eq_getLast?, List.getLast?_eq_some_getLast notNil, Option.getD_some]
        rw [last, ← appended]

theorem arrayIndex_of_units {string : EcmaString} {index : ℕ} (small : index < 2 ^ 32 - 1)
    (text : string.units = asciiUnits (Decimal.decimal index)) :
    string.arrayIndex = some index := by
  rw [EcmaString.arrayIndex, EcmaString.bytes, text,
    Unicode.cesu8_asciiUnits (Decimal.ascii_decimal index), ecmaStringToArrayIndex_decimal (by omega)]
  simpa using small

theorem findProperty_of_mem {properties : List Property} {property : Property}
    (distinct : (properties.map fun property : Property => property.1.units).Nodup)
    (mem : property ∈ properties) : findProperty properties property.1.units = some property.2 := by
  induction properties with
  | nil => cases mem
  | cons first properties ih =>
      rw [List.map_cons, List.nodup_cons] at distinct
      rcases List.mem_cons.mp mem with rfl | inRest
      · simp [findProperty]
      · have different : first.1.units ≠ property.1.units := by
          intro same
          exact distinct.1 (same ▸ List.mem_map_of_mem inRest)
        have found := ih distinct.2 inRest
        unfold findProperty at found ⊢
        rw [List.find?_cons_of_neg (by simpa using different), found]

theorem mem_enumerationOrder {α : Type} {properties : List (EcmaString × α)}
    {property : EcmaString × α} : property ∈ enumerationOrder properties ↔ property ∈ properties := by
  simp only [enumerationOrder, List.mem_append, List.mem_insertionSort, List.mem_filter]
  cases property.1.arrayIndex <;> simp

namespace PlainHeap

variable {heap : PlainHeap} {object : EcmaObject}

theorem mem_cells {cell : PlainCell} (isCell : heap.cell object = some cell) :
    cell ∈ heap.cells := by
  rw [PlainHeap.cell] at isCell
  split_ifs at isCell
  exact List.mem_of_getElem? isCell

/-- Reading the key of an enumerable property. -/
theorem read_property {properties hidden : List Property}
    (isObject : heap.cell object = some (.object properties hidden)) {property : Property}
    (mem : property ∈ enumerationOrder properties) :
    heap.read object property.1 = property.2 := by
  have inHeap : .object properties hidden ∈ heap.cells := mem_cells isObject
  have found := findProperty_of_mem (heap.isPlain.distinctKeys properties hidden inHeap)
    (mem_enumerationOrder.mp mem)
  simp [read, isObject, PlainCell.read, found]

/-- Reading an element of an array. -/
theorem read_element {elements : List (Option ScriptValue)} {hidden : List Property}
    (isArray : heap.cell object = some (.array elements hidden)) {key : EcmaString} {index : ℕ}
    (inBounds : index < elements.length)
    (text : key.units = asciiUnits (Decimal.decimal index)) :
    heap.read object key = elements[index].getD ⟨.undefined, rfl⟩ := by
  have inHeap : .array elements hidden ∈ heap.cells := mem_cells isArray
  have small := heap.isPlain.arrayLength elements hidden inHeap
  have isIndex : key.arrayIndex = some index := arrayIndex_of_units (by omega) text
  simp [read, isArray, PlainCell.read, isIndex, List.getElem?_eq_getElem inBounds]

theorem children_subset {cell : PlainCell} {value : ScriptValue} (mem : value ∈ cell.children) :
    value ∈ cell.values ∨ value = ⟨.undefined, rfl⟩ := by
  cases cell with
  | object properties hidden =>
      rcases List.mem_map.mp mem with ⟨property, inOrder, rfl⟩
      exact .inl (List.mem_map_of_mem
        (List.mem_append_left hidden (mem_enumerationOrder.mp inOrder)))
  | array elements hidden =>
      rcases List.mem_map.mp mem with ⟨element, inElements, rfl⟩
      cases element with
      | none => exact .inr rfl
      | some value =>
          left
          exact List.mem_append_left _ (List.mem_filterMap.mpr ⟨some value, inElements, rfl⟩)
  | callable hidden => cases mem

/-- A value that belongs to the heap. -/
structure Owns (heap : PlainHeap) (value : EcmaValue) : Prop where
  plain : value.plain = true
  inHeap : ∀ object, value = .object object → object.address < heap.cells.length

theorem owns_undefined : heap.Owns .undefined := ⟨rfl, nofun⟩

theorem owns_child {cell : PlainCell} (isCell : heap.cell object = some cell)
    {value : ScriptValue} (mem : value ∈ cell.children) : heap.Owns value.value := by
  have inHeap : cell ∈ heap.cells := mem_cells isCell
  rcases children_subset mem with inValues | rfl
  · exact ⟨heap.isPlain.plain cell inHeap value inValues,
      heap.isPlain.closed cell inHeap value inValues⟩
  · exact owns_undefined

/-- No object of the heap has a callable `toJSON`. -/
theorem toJson_not_function (object : EcmaObject) :
    heap.isFunction (heap.read object (.magic (magicText "toJSON"))).value = false := by
  cases isRead : (heap.read object (.magic (magicText "toJSON"))).value with
  | object function =>
      cases isCell : heap.cell object with
      | none =>
          simp only [read, isCell] at isRead
          cases isRead
      | some cell =>
          simp only [read, isCell] at isRead
          have inHeap : cell ∈ heap.cells := mem_cells isCell
          cases target : heap.cell function with
          | none => simp [isFunction, isCallable, target]
          | some other =>
              have isOther := target
              rw [PlainHeap.cell] at isOther
              split_ifs at isOther
              simp [isFunction, isCallable, target,
                heap.isPlain.noToJson cell inHeap function isRead other isOther]
  | _ => rfl

theorem isCallable_of_cell {cell : PlainCell} (isCell : heap.cell object = some cell) :
    heap.isCallable object = cell.isCallable := by
  simp [isCallable, isCell]

theorem isArray_of_cell {cell : PlainCell} (isCell : heap.cell object = some cell) :
    heap.isArray object = cell.isArray := by
  simp [isArray, isCell]

theorem successors_object {cell : PlainCell} (isCell : heap.cell object = some cell) :
    heap.successors (.object object) = cell.children.map ScriptValue.value := by
  simp [successors, isCell]

theorem combine_object {properties hidden : List Property}
    (isCell : heap.cell object = some (.object properties hidden))
    (results : List (Option Json)) :
    heap.combine (.object object) results =
      some (.object (members (enumerationOrder properties) results)) := by
  simp [combine, isCell]

theorem combine_array {elements : List (Option ScriptValue)} {hidden : List Property}
    (isCell : heap.cell object = some (.array elements hidden)) (results : List (Option Json)) :
    heap.combine (.object object) results =
      some (.array (results.map fun result => result.getD .null)) := by
  simp [combine, isCell]

theorem combine_callable {hidden : List Property}
    (isCell : heap.cell object = some (.callable hidden)) (results : List (Option Json)) :
    heap.combine (.object object) results = none := by
  simp [combine, isCell]

end PlainHeap

end Cmsframe
