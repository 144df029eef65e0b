import Cmsframe.Plain.Trees

/-!
# Cycles and shared data

The graph of a plain heap has an edge from an object to every object that it holds and
that cannot be called. A serialisation ends with a string exactly if no cycle of this
graph can be reached, and otherwise with the error for a cyclic structure. What can be
reached in several ways is then written several times, once for every way.
-/

namespace Cmsframe

open Interaction
open Traversal (Stop explore)
open Unicode (CodeUnit cesu8)

namespace PlainHeap

variable {heap : PlainHeap}

/-- The edges of the object graph. -/
inductive Edge (heap : PlainHeap) : EcmaObject → EcmaObject → Prop where
  | property {parent child : EcmaObject} {properties hidden : List Property}
      (isObject : heap.cell parent = some (.object properties hidden)) {property : Property}
      (mem : property ∈ properties) (isChild : property.2.value = .object child)
      (notCallable : heap.isCallable child = false) : Edge heap parent child
  | element {parent child : EcmaObject} {elements : List (Option ScriptValue)}
      {hidden : List Property} (isArray : heap.cell parent = some (.array elements hidden))
      {value : ScriptValue} (mem : some value ∈ elements) (isChild : value.value = .object child)
      (notCallable : heap.isCallable child = false) : Edge heap parent child

/-- A cycle can be reached from an object. -/
def ReachesCycle (heap : PlainHeap) (root : EcmaObject) : Prop :=
  ∃ object, Relation.ReflTransGen heap.Edge root object ∧ Relation.TransGen heap.Edge object object

/-- The edges are what the traversal follows, up to values below which there is nothing. -/
theorem edge_iff {parent child : EcmaObject} :
    heap.Edge parent child ↔
      Traversal.Edge heap.successors (.object parent) (.object child) ∧
        heap.isCallable child = false := by
  constructor
  · intro edge
    cases edge with
    | property isObject mem isChild notCallable =>
        refine ⟨?_, notCallable⟩
        rw [Traversal.Edge, successors_object isObject, List.mem_map]
        exact ⟨_, List.mem_map_of_mem (mem_enumerationOrder.mpr mem), isChild⟩
    | element isArray mem isChild notCallable =>
        refine ⟨?_, notCallable⟩
        rw [Traversal.Edge, successors_object isArray, List.mem_map]
        exact ⟨_, List.mem_map_of_mem mem, isChild⟩
  · rintro ⟨edge, notCallable⟩
    rw [Traversal.Edge] at edge
    cases isCell : heap.cell parent with
    | none =>
        simp only [successors, isCell] at edge
        cases edge
    | some cell =>
        rw [successors_object isCell] at edge
        rcases List.mem_map.mp edge with ⟨value, mem, isChild⟩
        cases cell with
        | object properties hidden =>
            rcases List.mem_map.mp mem with ⟨property, inOrder, rfl⟩
            exact .property isCell (mem_enumerationOrder.mp inOrder) isChild notCallable
        | array elements hidden =>
            rcases List.mem_map.mp mem with ⟨element, inElements, rfl⟩
            cases element with
            | none => cases isChild
            | some value => exact .element isCell inElements isChild notCallable
        | callable hidden => cases mem

/-- Only objects that cannot be called have something below them. -/
theorem exists_object_of_edge {parent child : EcmaValue}
    (edge : Traversal.Edge heap.successors parent child) :
    ∃ object, parent = .object object ∧ heap.isCallable object = false := by
  cases parent with
  | object object =>
      refine ⟨object, rfl, ?_⟩
      rw [Traversal.Edge] at edge
      cases isCell : heap.cell object with
      | none => simp [isCallable, isCell]
      | some cell =>
          rw [successors_object isCell] at edge
          cases cell with
          | callable hidden => cases edge
          | _ => exact isCallable_of_cell isCell
  | _ => cases edge

/-- A way of the traversal between values that have something below them is a way of the
graph. -/
theorem reaches_of_traversal {root other next : EcmaValue}
    (reached : Relation.ReflTransGen (Traversal.Edge heap.successors) root other)
    (goesOn : Traversal.Edge heap.successors other next) :
    ∃ object target, root = .object object ∧ other = .object target ∧
      heap.isCallable object = false ∧ Relation.ReflTransGen heap.Edge object target := by
  induction reached using Relation.ReflTransGen.head_induction_on with
  | refl =>
      rcases exists_object_of_edge goesOn with ⟨object, rfl, notCallable⟩
      exact ⟨object, object, rfl, rfl, notCallable, .refl⟩
  | head edge _ ih =>
      rcases ih with ⟨object, target, rfl, isTarget, notCallable, reached⟩
      rcases exists_object_of_edge edge with ⟨parent, rfl, parentNotCallable⟩
      exact ⟨parent, target, rfl, isTarget, parentNotCallable,
        reached.head (edge_iff.mpr ⟨edge, notCallable⟩)⟩

/-- The traversal meets the cycles of the graph. -/
theorem reachesCycle_iff (root : EcmaObject) :
    heap.ReachesCycle root ↔
      ∃ other, Relation.ReflTransGen (Traversal.Edge heap.successors) (.object root) other ∧
        Relation.TransGen (Traversal.Edge heap.successors) other other := by
  constructor
  · rintro ⟨object, reached, cycle⟩
    exact ⟨.object object,
      reached.lift EcmaValue.object fun _ _ edge => (edge_iff.mp edge).1,
      cycle.lift EcmaValue.object fun _ _ edge => (edge_iff.mp edge).1⟩
  · rintro ⟨other, reached, cycle⟩
    rcases Relation.TransGen.head'_iff.mp cycle with ⟨next, edge, back⟩
    rcases reaches_of_traversal reached edge with ⟨_, target, rootIs, rfl, _, way⟩
    cases rootIs
    refine ⟨target, way, ?_⟩
    rcases reaches_of_traversal back edge with ⟨child, _, rfl, isTarget, notCallable, rest⟩
    cases isTarget
    exact Relation.TransGen.head' (edge_iff.mpr ⟨edge, notCallable⟩) rest

/-- A traversal that comes to an end has met no cycle. -/
theorem not_reachesCycle_of_explore {root : EcmaObject} {fuel : ℕ}
    (isOk : (explore heap.successors heap.combine fuel [] (.object root)).isOk = true) :
    ¬heap.ReachesCycle root := by
  rw [reachesCycle_iff]
  rintro ⟨other, reached, cycle⟩
  cases explored : explore heap.successors heap.combine fuel [] (.object root) with
  | error stop =>
      rw [explored] at isOk
      cases isOk
  | ok result => exact Traversal.not_cycle_of_acc (Traversal.explore_acc explored) reached cycle

/-- Whether a value has a JSON form, which the values below it do not decide. -/
def hasForm (heap : PlainHeap) (value : EcmaValue) : Bool := (heap.combine value []).isSome

/-- The values written directly below a value: members without a JSON form are left out. -/
def written (heap : PlainHeap) : EcmaValue → List EcmaValue
  | .object object =>
      match heap.cell object with
      | some (.array elements hidden) =>
          (PlainCell.array elements hidden).children.map ScriptValue.value
      | some cell => (cell.children.map ScriptValue.value).filter heap.hasForm
      | none => []
  | _ => []

/-- The ways through the heap, by the places of what is written. -/
inductive Path (heap : PlainHeap) : EcmaValue → List ℕ → EcmaValue → Prop where
  | here (value : EcmaValue) : Path heap value [] value
  | step {parent child target : EcmaValue} {index : ℕ} {indices : List ℕ}
      (isChild : (heap.written parent)[index]? = some child)
      (rest : Path heap child indices target) : Path heap parent (index :: indices) target

theorem combine_isSome (value : EcmaValue) (results : List (Option Json)) :
    (heap.combine value results).isSome = heap.hasForm value := by
  rw [hasForm]
  cases value with
  | object object =>
      simp only [combine]
      cases heap.cell object with
      | none => rfl
      | some cell => cases cell <;> rfl
  | simple simple => cases simple <;> rfl
  | _ => rfl

theorem unfolds_isSome {value : EcmaValue} {result : Option Json}
    (unfolds : heap.Unfolds value result) : result.isSome = heap.hasForm value := by
  cases unfolds with
  | node children => exact combine_isSome value _

/-- What leads to a value with a JSON form has one. -/
theorem Path.form {value target : EcmaValue} {indices : List ℕ}
    (path : heap.Path value indices target) (targetForm : heap.hasForm target = true) :
    heap.hasForm value = true := by
  cases path with
  | here => exact targetForm
  | step isChild rest =>
      cases value with
      | object object =>
          simp only [written] at isChild
          cases isCell : heap.cell object with
          | none =>
              rw [isCell] at isChild
              cases isChild
          | some cell =>
              rw [isCell] at isChild
              cases cell with
              | callable hidden => cases isChild
              | object properties hidden => simp [hasForm, combine, isCell]
              | array elements hidden => simp [hasForm, combine, isCell]
      | _ => cases isChild

/-- The members of an object are the forms of the values written below it. -/
theorem exists_member {properties : List Property} {results : List (Option Json)}
    (expand : Traversal.ExpandsAll heap.successors heap.combine
      (properties.map fun property => property.2.value) results)
    {index : ℕ} {child : EcmaValue}
    (isChild : ((properties.map fun property => property.2.value).filter heap.hasForm)[index]? =
      some child) :
    ∃ member, (members properties results)[index]? = some member ∧
      heap.Unfolds child (some member.2) := by
  induction properties generalizing results index with
  | nil => cases isChild
  | cons property properties ih =>
      rw [List.map_cons] at expand isChild
      cases expand with
      | @cons _ _ result results first rest =>
          have formed := unfolds_isSome first
          cases result with
          | none =>
              rw [List.filter_cons_of_neg (by simp [← formed])] at isChild
              exact ih rest isChild
          | some json =>
              rw [List.filter_cons_of_pos (by simp [← formed])] at isChild
              cases index with
              | zero =>
                  cases isChild
                  exact ⟨(property.1.units, json), rfl, first⟩
              | succ index =>
                  rw [List.getElem?_cons_succ] at isChild
                  exact ih rest isChild

theorem getElem?_of_expandsAll {values : List EcmaValue} {results : List (Option Json)}
    (expand : Traversal.ExpandsAll heap.successors heap.combine values results) {index : ℕ}
    {child : EcmaValue} (isChild : values[index]? = some child) :
    ∃ result, results[index]? = some result ∧ heap.Unfolds child result := by
  induction values generalizing results index with
  | nil => cases isChild
  | cons value values ih =>
      cases expand with
      | cons first rest =>
          cases index with
          | zero =>
              cases isChild
              exact ⟨_, rfl, first⟩
          | succ index => exact ih rest isChild

/-- A value written directly below another one has its own text there. -/
theorem exists_child (numbers : NumberConversion) {value child : EcmaValue} {json : Json}
    (unfolds : heap.Unfolds value (some json)) {index : ℕ}
    (isChild : (heap.written value)[index]? = some child) (form : heap.hasForm child = true) :
    ∃ before tree after, heap.Unfolds child (some tree) ∧
      json.child numbers index = some (before, tree, after) := by
  cases value with
  | object object =>
      simp only [written] at isChild
      generalize isResult : some json = result at unfolds
      cases unfolds with
      | @node _ results children =>
          cases isCell : heap.cell object with
          | none =>
              rw [isCell] at isChild
              cases isChild
          | some cell =>
              rw [isCell] at isChild
              rw [successors_object isCell] at children
              cases cell with
              | callable hidden => cases isChild
              | object properties hidden =>
                  rw [combine_object isCell] at isResult
                  cases isResult
                  have ordered : (PlainCell.object properties hidden).children.map
                      ScriptValue.value =
                        (enumerationOrder properties).map fun property => property.2.value := by
                    simp [PlainCell.children]
                  simp only [ordered] at isChild children
                  rcases exists_member children isChild with ⟨member, isMember, unfoldsChild⟩
                  have placed : ∃ before after,
                      Json.child numbers (.object (members (enumerationOrder properties) results))
                        index = some (before, member.2, after) := by
                    simp [Json.child, isMember]
                  rcases placed with ⟨before, after, isPlace⟩
                  exact ⟨before, member.2, after, unfoldsChild, isPlace⟩
              | array elements hidden =>
                  rw [combine_array isCell] at isResult
                  cases isResult
                  rcases getElem?_of_expandsAll children isChild with
                    ⟨result, isResult, unfoldsChild⟩
                  have formed := unfolds_isSome unfoldsChild
                  rw [form] at formed
                  rcases Option.isSome_iff_exists.mp formed with ⟨tree, rfl⟩
                  have placed : ∃ before after, Json.child numbers (.array (results.map
                      fun result => result.getD .null)) index = some (before, tree, after) := by
                    simp [Json.child, isResult]
                  rcases placed with ⟨before, after, isPlace⟩
                  exact ⟨before, tree, after, unfoldsChild, isPlace⟩
  | _ => cases isChild

/-- Every way from a root to a value leads to a place of its own where the text of the value
is written. -/
theorem exists_place (numbers : NumberConversion) {value target : EcmaValue} {json : Json}
    {indices : List ℕ} (path : heap.Path value indices target)
    (targetForm : heap.hasForm target = true) (unfolds : heap.Unfolds value (some json)) :
    ∃ before tree after, heap.Unfolds target (some tree) ∧
      json.locate numbers indices = some (before, tree, after) := by
  induction path generalizing json with
  | here value => exact ⟨[], json, [], unfolds, rfl⟩
  | step isChild rest ih =>
      rcases exists_child numbers unfolds isChild (rest.form targetForm) with
        ⟨before, child, after, unfoldsChild, isPlace⟩
      rcases ih targetForm unfoldsChild with ⟨inner, tree, outer, unfoldsTarget, located⟩
      refine ⟨before ++ inner, tree, outer ++ after, unfoldsTarget, ?_⟩
      simp only [Json.locate, isPlace, located, Option.map_some]

theorem Owns.of_cell {object : EcmaObject} {cell : PlainCell}
    (isCell : heap.cell object = some cell) : heap.Owns (.object object) := by
  rw [PlainHeap.cell] at isCell
  split_ifs at isCell with noError
  refine ⟨noError, ?_⟩
  intro other same
  cases same
  exact (List.getElem?_eq_some_iff.mp isCell).1

theorem owns_written {value child : EcmaValue} (mem : child ∈ heap.written value) :
    heap.Owns child := by
  cases value with
  | object object =>
      simp only [written] at mem
      cases isCell : heap.cell object with
      | none =>
          rw [isCell] at mem
          cases mem
      | some cell =>
          rw [isCell] at mem
          have inChildren : child ∈ cell.children.map ScriptValue.value := by
            cases cell with
            | array elements hidden => exact mem
            | _ => exact List.mem_of_mem_filter mem
          rcases List.mem_map.mp inChildren with ⟨script, isChild, rfl⟩
          exact owns_child isCell isChild
  | _ => cases mem

theorem Path.owns {value target : EcmaValue} {indices : List ℕ}
    (path : heap.Path value indices target) (owns : heap.Owns value) : heap.Owns target := by
  induction path with
  | here => exact owns
  | step isChild _ ih => exact ih (owns_written (List.mem_of_getElem? isChild))

theorem hasForm_object {object : EcmaObject} (owns : heap.Owns (.object object))
    (notCallable : heap.isCallable object = false) : heap.hasForm (.object object) = true := by
  rcases owns.exists_cell with ⟨cell, isCell⟩
  rw [isCallable_of_cell isCell] at notCallable
  cases cell with
  | callable hidden => cases notCallable
  | _ => simp [hasForm, combine, isCell]

/-- The objects of the heap as values. -/
def inner (heap : PlainHeap) : Finset EcmaValue :=
  (Finset.range heap.cells.length).image fun address => .object ⟨address, none⟩

theorem successors_of_not_mem_inner {value : EcmaValue} (outside : value ∉ heap.inner) :
    heap.successors value = [] := by
  cases value with
  | object object =>
      cases isCell : heap.cell object with
      | none => simp [successors, isCell]
      | some cell =>
          have owns := Owns.of_cell isCell
          exfalso
          apply outside
          refine Finset.mem_image.mpr ⟨object.address,
            Finset.mem_range.mpr (owns.inHeap object rfl), ?_⟩
          rw [← owns.nativeError]
  | _ => rfl

theorem card_inner_le (heap : PlainHeap) : heap.inner.card ≤ heap.cells.length :=
  Finset.card_image_le.trans_eq (Finset.card_range _)

end PlainHeap

/-- How a whole serialisation ends where the traversal yields a result. -/
def Stringifies (numbers : NumberConversion) (heap : PlainHeap) (held lent : Multiset Pointer)
    (program : Program Fault Effect Effect.Reply (World PlainHeap) (EcmaValue × Frame)) :
    Except Stop (Option Json) → Prop
  | .ok (some json) => ∃ string next, program =
      .done (.string string, ⟨none, held + string.references, lent⟩) ⟨heap, next⟩ ∧
        string.units = json.units numbers
  | .ok none => ∃ next, program = .done (.undefined, ⟨none, held, lent⟩) ⟨heap, next⟩
  | .error .cyclic => ∃ address next, program = .done (.error,
      ⟨some (Native.nativeError .typeError .theStructureIsCyclical address), held, lent⟩)
        ⟨heap, next⟩
  | .error .exhausted => program = .fault .outOfFuel

namespace Native

variable {numbers : NumberConversion} {isMagicString : List CodeUnit → Bool} {heap : PlainHeap}
variable {held lent : Multiset Pointer}

theorem stringifies_ecmaBuiltinJsonStringifyNoOpts (fuel : ℕ) {value : EcmaValue}
    (owns : heap.Owns value) (alive : (⟨none, held, lent⟩ : Frame).Alive value.references)
    (next : Pointer) :
    Stringifies numbers heap held lent
      ((ecmaBuiltinJsonStringifyNoOpts (plainRealm numbers isMagicString) fuel value).run
        ⟨none, held, lent⟩ ⟨heap, next⟩)
      (explore heap.successors heap.combine fuel [] value) := by
  have serialized := @writesTrees_ecmaBuiltinJsonSerializeProperty numbers isMagicString heap fuel
    (held + {next}) lent (next + 1) [] [] (.wrapper ⟨next, none⟩ value) (.magic [])
    (List.forall_mem_nil _) owns (Frame.Alive.of_le_held (Multiset.le_add_left _ _))
    (Frame.alive_zero _)
  have created : (createObject (plainRealm numbers isMagicString) (.holder value)).run
      ⟨none, held, lent⟩ ⟨heap, next⟩ =
        .done (⟨next, none⟩, ⟨none, held + {next}, lent⟩) ⟨heap, next + 1⟩ := rfl
  have started : StringifyContext.start ⟨[], [], [], none, none, .magic []⟩ =
      plainContext [] [] := rfl
  simp only [ecmaBuiltinJsonStringifyNoOpts, ecmaBuiltinJsonStrHelper, Routine.run_bind,
    run_touch _ _ alive, Program.bind_done, created, started]
  change Writes numbers heap [] [] (held + {next}) lent _
    (explore heap.successors heap.combine fuel [] value) at serialized
  generalize explore heap.successors heap.combine fuel [] value = explored at serialized
  cases explored with
  | ok written =>
      cases written with
      | some json =>
          rcases serialized with ⟨after, ran⟩
          have text : cesu8Units (cesu8 (json.units numbers)).length
              (cesu8 (json.units numbers)) = json.units numbers := cesu8Units_cesu8 _ le_rfl
          rcases (settles_ecmaNewEcmaString (plainRealm numbers isMagicString) none held lent
            (⟨heap, after⟩ : World PlainHeap) (json.units numbers)).eq_done with
            ⟨⟨string, frame⟩, ⟨script, last⟩, made, sameText, sameFrame, sameScript⟩
          simp only at sameText sameFrame sameScript
          subst sameFrame sameScript
          rw [ran]
          simp only [List.nil_append, Program.bind_done, ecmaDerefObject, run_release_acquired,
            EcmaValue.simple.injEq, reduceCtorEq, or_self, if_false, resultBuilder_plainContext,
            text, Routine.run_bind, made, Routine.run_pure, ecmaDerefEcmaString,
            EcmaString.references, run_release_zero]
          exact ⟨string, last, rfl, sameText⟩
      | none =>
          rcases serialized with ⟨after, ran⟩
          rw [ran]
          simp only [Program.bind_done, ecmaDerefObject, run_release_acquired, or_true, if_true,
            Routine.run_pure, ecmaDerefEcmaString, EcmaString.references, run_release_zero]
          exact ⟨after, rfl⟩
  | error stop =>
      cases stop with
      | cyclic =>
          rcases serialized with ⟨after, address, last, ran⟩
          rw [ran]
          simp only [Program.bind_done, ecmaDerefObject, run_release_acquired, true_or, if_true,
            Routine.run_pure, ecmaDerefEcmaString, EcmaString.references, run_release_zero]
          exact ⟨address, last, rfl⟩
      | exhausted =>
          rw [Writes] at serialized
          rw [serialized]
          rfl

end Native

/-- A text in which every way from the root to an object has a position of its own, at which
the full text of the object begins. -/
def WrittenIn (numbers : NumberConversion) (heap : PlainHeap) (root : EcmaObject)
    (text : List CodeUnit) : Prop :=
  ∃ (json : Json) (position : List ℕ → ℕ), heap.Unfolds (.object root) (some json) ∧
    text = json.units numbers ∧
    (∀ indices others object other, heap.isCallable object = false →
      heap.isCallable other = false → heap.Path (.object root) indices (.object object) →
        heap.Path (.object root) others (.object other) →
          position indices = position others → indices = others) ∧
    ∀ indices object, heap.isCallable object = false →
      heap.Path (.object root) indices (.object object) →
        ∃ tree, heap.Unfolds (.object object) (some tree) ∧
          tree.units numbers <+: text.drop (position indices)

theorem writtenIn_of_unfolds (numbers : NumberConversion) {heap : PlainHeap} {root : EcmaObject}
    (owns : heap.Owns (.object root)) {json : Json}
    (unfolds : heap.Unfolds (.object root) (some json)) :
    WrittenIn numbers heap root (json.units numbers) := by
  let position : List ℕ → ℕ := fun indices =>
    (json.locate numbers indices).elim 0 fun place => place.1.length
  refine ⟨json, position, unfolds, rfl, ?_, ?_⟩
  · intro indices others object other notCallable otherNotCallable path otherPath same
    have form := PlainHeap.hasForm_object (path.owns owns) notCallable
    have otherForm := PlainHeap.hasForm_object (otherPath.owns owns) otherNotCallable
    rcases PlainHeap.exists_place numbers path form unfolds with ⟨_, _, _, _, located⟩
    rcases PlainHeap.exists_place numbers otherPath otherForm unfolds with ⟨_, _, _, _, alsoLocated⟩
    simp only [position, located, alsoLocated, Option.elim_some] at same
    exact Json.locate_injective located alsoLocated same
  · intro indices object notCallable path
    have form := PlainHeap.hasForm_object (path.owns owns) notCallable
    rcases PlainHeap.exists_place numbers path form unfolds with
      ⟨before, tree, after, unfoldsObject, located⟩
    refine ⟨tree, unfoldsObject, ?_⟩
    simp only [position, located, Option.elim_some]
    rw [Json.locate_units located, List.append_assoc, List.drop_left]
    exact List.prefix_append _ _

/-- On every heap of plain objects the serialisation of an object stops, at the latest when
it is one level deeper than there are objects. It returns a string exactly if no cycle can
be reached, and raises the error for a cyclic structure otherwise; in the string, shared
data is written once for every way to it. -/
theorem stringify_plain_iff (heap : PlainHeap) (numbers : NumberConversion)
    (isMagicString : List CodeUnit → Bool) {root : EcmaObject} {cell : PlainCell}
    (isCell : heap.cell root = some cell) (notCallable : cell.isCallable = false) {fuel : ℕ}
    (enough : heap.cells.length < fuel) {held lent : Multiset Pointer}
    (alive : (⟨none, held, lent⟩ : Frame).Alive {root.address}) (next : Pointer) :
    ((∃ string after, (Native.ecmaBuiltinJsonStringifyNoOpts (plainRealm numbers isMagicString)
        fuel (.object root)).run ⟨none, held, lent⟩ ⟨heap, next⟩ =
          .done (.string string, ⟨none, held + string.references, lent⟩) ⟨heap, after⟩ ∧
        WrittenIn numbers heap root string.units) ↔ ¬heap.ReachesCycle root) ∧
    ((∃ address after, (Native.ecmaBuiltinJsonStringifyNoOpts (plainRealm numbers isMagicString)
        fuel (.object root)).run ⟨none, held, lent⟩ ⟨heap, next⟩ =
          .done (.error, ⟨some (Native.nativeError .typeError .theStructureIsCyclical address),
            held, lent⟩) ⟨heap, after⟩) ↔ heap.ReachesCycle root) := by
  have owns := PlainHeap.Owns.of_cell isCell
  have stringifies := @Native.stringifies_ecmaBuiltinJsonStringifyNoOpts numbers isMagicString _ held
    lent fuel _ owns alive next
  have fewer : heap.inner.card < fuel := heap.card_inner_le.trans_lt enough
  have explored := @Traversal.explore_iff _ _ _ _ heap.combine _
    (fun value outside => PlainHeap.successors_of_not_mem_inner outside) _ fewer (.object root)
  rw [← PlainHeap.reachesCycle_iff] at explored
  by_cases cycle : heap.ReachesCycle root
  · rw [explored.2.mpr cycle] at stringifies
    rcases stringifies with ⟨address, after, ran⟩
    refine ⟨iff_of_false ?_ (not_not_intro cycle), iff_of_true ⟨address, after, ran⟩ cycle⟩
    rintro ⟨string, _, ended, _⟩
    rw [ran] at ended
    cases ended
  · rcases explored.1.mpr cycle with ⟨result, exploredResult⟩
    have unfolds : heap.Unfolds (.object root) result :=
      Traversal.explore_expands exploredResult
    have isForm : result.isSome = true := by
      rw [PlainHeap.unfolds_isSome unfolds]
      exact PlainHeap.hasForm_object owns (by simp [PlainHeap.isCallable, isCell, notCallable])
    rcases Option.isSome_iff_exists.mp isForm with ⟨json, rfl⟩
    rw [exploredResult] at stringifies
    rcases stringifies with ⟨string, after, ran, text⟩
    refine ⟨iff_of_true ⟨string, after, ran, ?_⟩ cycle, iff_of_false ?_ cycle⟩
    · rw [text]
      exact writtenIn_of_unfolds numbers owns unfolds
    · rintro ⟨address, _, ended⟩
      rw [ran] at ended
      cases ended

/-- `root = { list: [leaf, leaf, ] }` with a hole at the end, and `loop = { self: loop }`. -/
def sharedCells : List PlainCell :=
  [.object [(.magic (magicText "list"), .ofObject ⟨1, none⟩)] [],
    .array [some (.ofObject ⟨2, none⟩), some (.ofObject ⟨2, none⟩), none] [],
    .object [] [],
    .object [(.magic (magicText "self"), .ofObject ⟨3, none⟩)] []]

def sharedHeap : PlainHeap where
  cells := sharedCells
  isPlain := by
    constructor
    · decide
    · simp [sharedCells, PlainCell.values]
    · intro properties hidden mem
      simp only [sharedCells, List.mem_cons, reduceCtorEq, PlainCell.object.injEq, List.not_mem_nil,
        or_false, false_or] at mem
      rcases mem with ⟨rfl, _⟩ | ⟨rfl, _⟩ | ⟨rfl, _⟩ <;> simp
    · intro elements hidden mem
      simp only [sharedCells, List.mem_cons, reduceCtorEq, PlainCell.array.injEq, List.not_mem_nil,
        or_false, false_or] at mem
      rcases mem with ⟨rfl, _⟩
      simp
    · have noMethod : ∀ cell ∈ sharedCells,
          (cell.read (.magic (magicText "toJSON"))).value = .undefined := by
        decide +kernel
      intro cell mem object isRead
      rw [noMethod cell mem] at isRead
      cases isRead

/-- Numbers that are never written need no digits. -/
def noDigits : NumberConversion := ⟨fun _ => ([], 0), fun _ => .nan⟩

theorem stringify_sharedHeap :
    (∃ string after, (Native.ecmaBuiltinJsonStringifyNoOpts
        (plainRealm noDigits fun _ => false) 5 (.object ⟨0, none⟩)).run
          ⟨none, 0, {0}⟩ ⟨sharedHeap, 4⟩ =
            .done (.string string, ⟨none, 0 + string.references, {0}⟩) ⟨sharedHeap, after⟩ ∧
        WrittenIn noDigits sharedHeap ⟨0, none⟩ string.units) ∧
    ∃ address after, (Native.ecmaBuiltinJsonStringifyNoOpts
        (plainRealm noDigits fun _ => false) 5 (.object ⟨3, none⟩)).run
          ⟨none, 0, {3}⟩ ⟨sharedHeap, 4⟩ =
            .done (.error, ⟨some (Native.nativeError .typeError .theStructureIsCyclical address),
              0, {3}⟩) ⟨sharedHeap, after⟩ := by
  constructor
  · refine (stringify_plain_iff sharedHeap noDigits _ rfl rfl (by decide) ?_ 4).1.mpr ?_
    · decide
    · have isOk : (explore sharedHeap.successors sharedHeap.combine 4 []
          (.object ⟨0, none⟩)).isOk = true := by
        decide +kernel
      exact PlainHeap.not_reachesCycle_of_explore isOk
  · refine (stringify_plain_iff sharedHeap noDigits _ rfl rfl (by decide) ?_ 4).2.mpr ?_
    · decide
    · have edge : sharedHeap.Edge ⟨3, none⟩ ⟨3, none⟩ :=
        .property rfl List.mem_cons_self rfl rfl
      exact ⟨⟨3, none⟩, .refl, .single edge⟩

end Cmsframe
