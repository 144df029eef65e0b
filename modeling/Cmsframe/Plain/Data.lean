import Cmsframe.Json.RoundTrip
import Cmsframe.Plain.Cycles

/-!
# Data

The values of a plain heap of which JSON loses nothing: null, booleans, finite numbers,
strings, arrays without holes, and objects. Below a value of this kind everything is data
again. `Represents` says which tree such a value is: sharing is resolved, and the members
of an object are in the order in which they are enumerated.
-/

namespace Cmsframe

open Traversal (explore)
open Unicode (CodeUnit)

/-- The order in which properties are enumerated that were created in the given order. -/
def keyOrder (keys : List (List CodeUnit)) : List (List CodeUnit) :=
  (enumerationOrder (keys.map fun key => (EcmaString.magic key, ()))).map fun entry => entry.1.units

section Order

variable {α β : Type}

theorem enumerationOrder_perm (properties : List (EcmaString × α)) :
    (enumerationOrder properties).Perm properties := by
  have parts := List.filter_append_perm (fun property : EcmaString × α =>
    property.1.arrayIndex.isSome) properties
  simp only [Option.not_isSome] at parts
  exact ((List.perm_insertionSort _ _).append_right _).trans parts

/-- Listing looks at the keys only. -/
theorem enumerationOrder_map (f : EcmaString × α → EcmaString × β)
    (same : ∀ property, (f property).1.arrayIndex = property.1.arrayIndex)
    (properties : List (EcmaString × α)) :
    enumerationOrder (properties.map f) = (enumerationOrder properties).map f := by
  have sorted := List.map_insertionSort
    (fun left right : EcmaString × α => left.1.arrayIndex.getD 0 ≤ right.1.arrayIndex.getD 0)
    (fun left right : EcmaString × β => left.1.arrayIndex.getD 0 ≤ right.1.arrayIndex.getD 0) f
    (properties.filter fun property => property.1.arrayIndex.isSome) (by simp [same])
  simp [enumerationOrder, List.filter_map, Function.comp_def, same, sorted]

/-- Properties that are created in the order in which they are listed stay in it. -/
theorem enumerationOrder_idem (properties : List (EcmaString × α)) :
    enumerationOrder (enumerationOrder properties) = enumerationOrder properties := by
  let below : EcmaString × α → EcmaString × α → Prop := fun left right =>
    left.1.arrayIndex.getD 0 ≤ right.1.arrayIndex.getD 0
  have total : Std.Total below := ⟨fun left right => le_total (left.1.arrayIndex.getD 0) _⟩
  have transitive : IsTrans _ below := ⟨fun _ _ _ => le_trans⟩
  let indexed := (properties.filter fun property => property.1.arrayIndex.isSome).insertionSort below
  let others := properties.filter fun property => property.1.arrayIndex.isNone
  have isIndexed : ∀ property ∈ indexed, property.1.arrayIndex.isSome = true := by
    intro property mem
    rw [List.mem_insertionSort] at mem
    exact (List.mem_filter.mp mem).2
  have notIndexed : ∀ property ∈ others, property.1.arrayIndex.isNone = true := by
    intro property mem
    exact (List.mem_filter.mp mem).2
  have stays : indexed.insertionSort below = indexed :=
    (List.pairwise_insertionSort below _).insertionSort_eq
  have first : (indexed ++ others).filter (fun property => property.1.arrayIndex.isSome) =
      indexed := by
    rw [List.filter_append, List.filter_eq_self.mpr isIndexed, List.filter_eq_nil_iff.mpr,
      List.append_nil]
    intro property mem
    simpa using notIndexed property mem
  have last : (indexed ++ others).filter (fun property => property.1.arrayIndex.isNone) =
      others := by
    rw [List.filter_append, List.filter_eq_self.mpr notIndexed, List.filter_eq_nil_iff.mpr,
      List.nil_append]
    intro property mem
    have isSome := isIndexed property mem
    rw [Option.isSome_iff_ne_none] at isSome
    simpa using isSome
  change (List.filter _ (indexed ++ others)).insertionSort below ++ List.filter _ (indexed ++ others) =
    indexed ++ others
  rw [first, last, stays]

theorem keyOrder_units (properties : List (EcmaString × α)) :
    keyOrder (properties.map fun property => property.1.units) =
      (enumerationOrder properties).map fun property => property.1.units := by
  have listed := enumerationOrder_map (fun property : EcmaString × α =>
    (EcmaString.magic property.1.units, ())) (fun _ => rfl) properties
  have keys : (properties.map fun property => property.1.units).map
      (fun key => (EcmaString.magic key, ())) =
        properties.map fun property => (EcmaString.magic property.1.units, ()) := by
    rw [List.map_map]
    rfl
  rw [keyOrder, keys, listed, List.map_map]
  rfl

/-- Keys that were enumerated are enumerated in the same order again. -/
theorem keyOrder_enumerationOrder (properties : List (EcmaString × α)) :
    keyOrder ((enumerationOrder properties).map fun property => property.1.units) =
      (enumerationOrder properties).map fun property => property.1.units := by
  rw [keyOrder_units, enumerationOrder_idem]

end Order

/-- The trees whose objects enumerate their members in the order they are written in. -/
inductive Json.InOrder : Json → Prop where
  | null : InOrder .null
  | boolean (value : Bool) : InOrder (.boolean value)
  | number (value : EcmaNumber) : InOrder (.number value)
  | string (units : List CodeUnit) : InOrder (.string units)
  | array {items : List Json} (each : ∀ item ∈ items, InOrder item) : InOrder (.array items)
  | object {members : List (List CodeUnit × Json)}
      (ordered : keyOrder (members.map Prod.fst) = members.map Prod.fst)
      (each : ∀ member ∈ members, InOrder member.2) : InOrder (.object members)

/-- The number that a value is. -/
def EcmaValue.number : EcmaValue → Option EcmaNumber
  | .integer number => some (EcmaNumber.ofInt number)
  | .float _ number => some number
  | _ => none

namespace PlainHeap

/-- A value of which JSON loses nothing, apart from the values below it. -/
def IsDatum (heap : PlainHeap) : EcmaValue → Prop
  | .simple .null | .simple .true | .simple .false | .integer _ | .string _ => True
  | .float _ number => number.isFinite = true
  | .object object =>
      match heap.cell object with
      | some (.object ..) => True
      | some (.array elements _) => ∀ element ∈ elements, element.isSome = true
      | _ => False
  | _ => False

/-- A value is found below another one. -/
abbrev Reaches (heap : PlainHeap) : EcmaValue → EcmaValue → Prop :=
  Relation.ReflTransGen (Traversal.Edge heap.successors)

/-- A value that is data throughout, with numbers for which the two conversions fit
together. -/
structure IsData (heap : PlainHeap) (numbers : NumberConversion) (value : EcmaValue) : Prop where
  datum : ∀ other, heap.Reaches value other → heap.IsDatum other
  exact : ∀ other number, heap.Reaches value other → other.number = some number →
    numbers.ReadsBack number

/-- The tree that a value is. -/
inductive Represents (heap : PlainHeap) : Json → EcmaValue → Prop where
  | null : Represents heap .null (.simple .null)
  | true : Represents heap (.boolean true) (.simple .true)
  | false : Represents heap (.boolean false) (.simple .false)
  | integer (number : ℤ) : Represents heap (.number (EcmaNumber.ofInt number)) (.integer number)
  | float (address : Pointer) {number : EcmaNumber} (isFinite : number.isFinite = true) :
      Represents heap (.number number) (.float address number)
  | string (string : EcmaString) : Represents heap (.string string.units) (.string string)
  | array {object : EcmaObject} {values : List ScriptValue} {hidden : List Property}
      (isArray : heap.cell object = some (.array (values.map some) hidden))
      (tree : ScriptValue → Json)
      (each : ∀ value ∈ values, Represents heap (tree value) value.value) :
      Represents heap (.array (values.map tree)) (.object object)
  | object {object : EcmaObject} {properties hidden : List Property}
      (isObject : heap.cell object = some (.object properties hidden))
      (tree : ScriptValue → Json)
      (each : ∀ property ∈ enumerationOrder properties,
        Represents heap (tree property.2) property.2.value) :
      Represents heap (.object ((enumerationOrder properties).map fun property =>
        (property.1.units, tree property.2))) (.object object)

variable {heap : PlainHeap} {numbers : NumberConversion} {value : EcmaValue}
variable {object : EcmaObject} {properties hidden : List Property}

theorem IsData.child {child : EcmaValue} (isData : heap.IsData numbers value)
    (edge : Traversal.Edge heap.successors value child) : heap.IsData numbers child := by
  constructor
  · intro other reached
    exact isData.datum other (reached.head edge)
  · intro other number reached isNumber
    exact isData.exact other number (reached.head edge) isNumber

theorem edge_property (isObject : heap.cell object = some (.object properties hidden))
    {property : Property} (mem : property ∈ enumerationOrder properties) :
    Traversal.Edge heap.successors (.object object) property.2.value := by
  rw [Traversal.Edge, successors_object isObject]
  exact List.mem_map_of_mem (List.mem_map_of_mem mem)

theorem edge_element {values : List ScriptValue}
    (isArray : heap.cell object = some (.array (values.map some) hidden)) {element : ScriptValue}
    (mem : element ∈ values) :
    Traversal.Edge heap.successors (.object object) element.value := by
  rw [Traversal.Edge, successors_object isArray]
  apply List.mem_map_of_mem
  exact List.mem_map.mpr ⟨some element, List.mem_map_of_mem mem, rfl⟩

theorem exists_values {elements : List (Option ScriptValue)}
    (each : ∀ element ∈ elements, element.isSome = true) :
    ∃ values : List ScriptValue, elements = values.map some := by
  induction elements with
  | nil => exact ⟨[], rfl⟩
  | cons element elements ih =>
      rcases Option.isSome_iff_exists.mp (each element List.mem_cons_self) with ⟨value, rfl⟩
      rcases ih fun other mem => each other (List.mem_cons_of_mem _ mem) with ⟨values, rfl⟩
      exact ⟨value :: values, rfl⟩

/-- What an object is that is data. -/
theorem IsDatum.cases (datum : heap.IsDatum (.object object)) :
    (∃ properties hidden, heap.cell object = some (.object properties hidden)) ∨
      ∃ (values : List ScriptValue) (hidden : List Property),
        heap.cell object = some (.array (values.map some) hidden) := by
  rw [IsDatum] at datum
  cases isCell : heap.cell object with
  | none => simp [isCell] at datum
  | some cell =>
      cases cell with
      | object properties hidden => exact .inl ⟨properties, hidden, rfl⟩
      | array elements hidden =>
          simp only [isCell] at datum
          rcases exists_values datum with ⟨values, rfl⟩
          exact .inr ⟨values, hidden, rfl⟩
      | callable hidden => simp [isCell] at datum

/-- Data without infinite descent is a tree. -/
theorem exists_represents
    (descends : Acc (fun child parent => Traversal.Edge heap.successors parent child) value)
    (isData : heap.IsData numbers value) : ∃ json, heap.Represents json value := by
  induction descends with
  | intro value _ ih =>
      have datum := isData.datum value .refl
      cases value with
      | simple simple =>
          cases simple with
          | null => exact ⟨_, .null⟩
          | true => exact ⟨_, .true⟩
          | false => exact ⟨_, .false⟩
          | _ => cases datum
      | integer number => exact ⟨_, .integer number⟩
      | float address number => exact ⟨_, .float address datum⟩
      | string string => exact ⟨_, .string string⟩
      | object object =>
          have below : ∀ child : ScriptValue, ∃ json,
              Traversal.Edge heap.successors (.object object) child.value →
                heap.Represents json child.value := by
            intro child
            by_cases edge : Traversal.Edge heap.successors (.object object) child.value
            · rcases ih child.value edge (isData.child edge) with ⟨json, represents⟩
              exact ⟨json, fun _ => represents⟩
            · exact ⟨.null, fun isEdge => absurd isEdge edge⟩
          choose tree isTree using below
          rcases datum.cases with ⟨properties, hidden, isObject⟩ | ⟨values, hidden, isArray⟩
          · refine ⟨_, .object isObject tree ?_⟩
            intro property mem
            exact isTree property.2 (edge_property isObject mem)
          · refine ⟨_, .array isArray tree ?_⟩
            intro value mem
            exact isTree value (edge_element isArray mem)
      | _ => cases datum

/-- The results of the traversal, if every result is a tree. -/
theorem expandsAll_eq {Item : Type} {items : List Item} {node : Item → EcmaValue}
    {tree : Item → Json} {results : List (Option Json)}
    (each : ∀ item ∈ items, ∀ result, heap.Unfolds (node item) result → result = some (tree item))
    (expand : Traversal.ExpandsAll heap.successors heap.combine (items.map node) results) :
    results = items.map fun item => some (tree item) := by
  induction items generalizing results with
  | nil =>
      cases expand
      rfl
  | cons item items ih =>
      rw [List.map_cons] at expand
      cases expand with
      | cons first rest =>
          rw [List.map_cons, each item List.mem_cons_self _ first,
            ih (fun other mem => each other (List.mem_cons_of_mem item mem)) rest]

theorem members_eq (properties : List Property) (tree : ScriptValue → Json) :
    members properties (properties.map fun property => some (tree property.2)) =
      properties.map fun property => (property.1.units, tree property.2) := by
  induction properties with
  | nil => rfl
  | cons property properties ih =>
      rw [List.map_cons, List.map_cons, ← ih]
      rfl

/-- The traversal of the serialiser computes the tree that a value is. -/
theorem Represents.unfolds {json : Json} (represents : heap.Represents json value) :
    ∀ result, heap.Unfolds value result → result = some json := by
  induction represents with
  | @array object values hidden isArray tree _ ih =>
      intro result unfolds
      cases unfolds with
      | node children =>
          have elements : heap.successors (.object object) = values.map ScriptValue.value := by
            rw [successors_object isArray]
            simp [PlainCell.children]
          rw [elements] at children
          rw [combine_array isArray, expandsAll_eq ih children]
          simp
  | @object object properties hidden isObject tree _ ih =>
      intro result unfolds
      cases unfolds with
      | node children =>
          have values : heap.successors (.object object) =
              (enumerationOrder properties).map fun property => property.2.value := by
            rw [successors_object isObject]
            simp [PlainCell.children]
          rw [values] at children
          rw [combine_object isObject, expandsAll_eq ih children, members_eq]
  | float address isFinite =>
      intro result unfolds
      cases unfolds with
      | node children => simp [combine, isFinite]
  | _ =>
      intro result unfolds
      cases unfolds with
      | node children => rfl

/-- The tree of data can be read back. -/
theorem Represents.readable {json : Json} (represents : heap.Represents json value)
    (isData : heap.IsData numbers value) : json.Readable numbers := by
  induction represents with
  | null => exact .null
  | true => exact .boolean _
  | false => exact .boolean _
  | integer number => exact .number rfl (isData.exact _ _ .refl rfl)
  | float address isFinite => exact .number isFinite (isData.exact _ _ .refl rfl)
  | string string => exact .string string.units
  | array isArray tree _ ih =>
      apply Json.Readable.array
      intro item mem
      rcases List.mem_map.mp mem with ⟨element, inValues, rfl⟩
      exact ih element inValues (isData.child (edge_element isArray inValues))
  | @object object properties hidden isObject tree _ ih =>
      have distinct := heap.isPlain.distinctKeys properties hidden (mem_cells isObject)
      apply Json.Readable.object
      · rw [List.map_map]
        exact ((enumerationOrder_perm properties).map _).nodup_iff.mpr distinct
      · intro member mem
        rcases List.mem_map.mp mem with ⟨property, inOrder, rfl⟩
        exact ih property inOrder (isData.child (edge_property isObject inOrder))

/-- What is read back enumerates its members in the order of the original. -/
theorem Represents.inOrder {json : Json} (represents : heap.Represents json value) :
    json.readBack.InOrder := by
  induction represents with
  | null => exact .null
  | true => exact .boolean _
  | false => exact .boolean _
  | integer number => exact .number _
  | float address _ => exact .number _
  | string string => exact .string string.units
  | array _ tree _ ih =>
      rw [Json.readBack, Json.readBackItems_eq, List.map_map]
      apply Json.InOrder.array
      intro item mem
      rcases List.mem_map.mp mem with ⟨element, inValues, rfl⟩
      exact ih element inValues
  | @object object properties hidden _ tree _ ih =>
      rw [Json.readBack, Json.readBackMembers_eq, List.map_map]
      apply Json.InOrder.object
      · rw [List.map_map]
        exact keyOrder_enumerationOrder properties
      · intro member mem
        rcases List.mem_map.mp mem with ⟨property, inOrder, rfl⟩
        exact ih property inOrder

/-- On data without a cycle the traversal of the serialiser ends with its one tree. -/
theorem explore_data {root : EcmaObject} (isData : heap.IsData numbers (.object root))
    (acyclic : ¬heap.ReachesCycle root) {fuel : ℕ} (enough : heap.cells.length < fuel) :
    ∃ json, heap.Represents json (.object root) ∧
      (∀ other, heap.Represents other (.object root) → other = json) ∧
      explore heap.successors heap.combine fuel [] (.object root) = .ok (some json) := by
  have fewer : heap.inner.card < fuel := heap.card_inner_le.trans_lt enough
  have explored := @Traversal.explore_iff _ _ _ _ heap.combine _
    (fun value outside => successors_of_not_mem_inner outside) _ fewer (.object root)
  rw [← reachesCycle_iff] at explored
  rcases explored.1.mpr acyclic with ⟨result, isResult⟩
  rcases exists_represents (Traversal.explore_acc isResult) isData with ⟨json, represents⟩
  have isTree := represents.unfolds result (Traversal.explore_expands isResult)
  refine ⟨json, represents, ?_, by rw [isResult, isTree]⟩
  intro other representsOther
  have isOther := representsOther.unfolds result (Traversal.explore_expands isResult)
  rw [isTree, Option.some.injEq] at isOther
  exact isOther.symm

end PlainHeap

end Cmsframe
