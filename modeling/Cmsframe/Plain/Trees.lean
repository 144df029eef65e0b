import Cmsframe.Plain.Serialize

/-!
# The trees the serialiser writes

The two loops of the serialiser against the traversal of the values below an object: the
loop over the keys appends the members, the loop over the elements appends the items, and
both end early exactly where the traversal does.
-/

namespace Cmsframe

open Interaction
open Traversal (Stop explore)
open Unicode (CodeUnit cesu8 asciiUnits)

/-- How a loop of the serialiser ends where the traversal of the values yields results.
`written` are `lastProp` and the builder after results that were all obtained. -/
def WritesItems (heap : PlainHeap) (stack : List EcmaObject) (held lent : Multiset Pointer)
    (written : List (Option Json) → ℕ × List UInt8)
    (program : Program Fault Effect Effect.Reply (World PlainHeap)
      ((EcmaValue × ℕ × StringifyContext) × Frame)) :
    Except Stop (List (Option Json)) → Prop
  | .ok results => ∃ next, program = .done
      ((.empty, (written results).1, plainContext (written results).2 stack), ⟨none, held, lent⟩)
        ⟨heap, next⟩
  | .error .cyclic => ∃ lastProp after address next, program = .done ((.error, lastProp, after),
      ⟨some (Native.nativeError .typeError .theStructureIsCyclical address), held, lent⟩)
        ⟨heap, next⟩
  | .error .exhausted => program = .fault .outOfFuel

/-- A loop that has one result already. -/
theorem WritesItems.cons {heap : PlainHeap} {stack : List EcmaObject}
    {held lent : Multiset Pointer} {written later : List (Option Json) → ℕ × List UInt8}
    {program : Program Fault Effect Effect.Reply (World PlainHeap)
      ((EcmaValue × ℕ × StringifyContext) × Frame)}
    {rest : Except Stop (List (Option Json))} {result : Option Json}
    (ended : WritesItems heap stack held lent later program rest)
    (agree : ∀ results, later results = written (result :: results)) :
    WritesItems heap stack held lent written program
      (rest >>= fun results => pure (result :: results)) := by
  cases rest with
  | ok results =>
      rcases ended with ⟨next, ran⟩
      rw [agree] at ran
      exact ⟨next, ran⟩
  | error stop =>
      cases stop with
      | exhausted => exact ended
      | cyclic => exact ended

/-- One round of a loop: a stop in it ends the loop, and after a result the loop goes on. -/
theorem Writes.thenItems {numbers : NumberConversion} {heap : PlainHeap} {bytes : List UInt8}
    {stack : List EcmaObject} {held acquired lent : Multiset Pointer}
    {written : List (Option Json) → ℕ × List UInt8} {explored : Except Stop (Option Json)}
    {rest : Except Stop (List (Option Json))}
    {program : Program Fault Effect Effect.Reply (World PlainHeap) (Serialized × Frame)}
    {proceed : Serialized × Frame → World PlainHeap → Program Fault Effect Effect.Reply
      (World PlainHeap) ((EcmaValue × ℕ × StringifyContext) × Frame)}
    (round : Writes numbers heap bytes stack acquired lent program explored)
    (stops : ∃ lastProp, ∀ after raised next,
      proceed ((.error, after), ⟨some raised, acquired, lent⟩) ⟨heap, next⟩ =
        .done ((.error, lastProp, after), ⟨some raised, held, lent⟩) ⟨heap, next⟩)
    (absent : ∀ next, WritesItems heap stack held lent written
      (proceed ((.undefined, plainContext bytes stack), ⟨none, acquired, lent⟩) ⟨heap, next⟩)
      (rest >>= fun results => pure (none :: results)))
    (present : ∀ json next, WritesItems heap stack held lent written
      (proceed ((.empty, plainContext (bytes ++ cesu8 (json.units numbers)) stack),
        ⟨none, acquired, lent⟩) ⟨heap, next⟩)
      (rest >>= fun results => pure (some json :: results))) :
    WritesItems heap stack held lent written (program.bind proceed)
      (explored >>= fun result => rest >>= fun results => pure (result :: results)) := by
  cases explored with
  | error stop =>
      cases stop with
      | exhausted =>
          rw [Writes] at round
          rw [round]
          rfl
      | cyclic =>
          rcases stops with ⟨lastProp, stops⟩
          rcases round with ⟨after, address, next, ran⟩
          rw [ran, Program.bind_done, stops]
          exact ⟨lastProp, after, address, next, rfl⟩
  | ok result =>
      cases result with
      | none =>
          rcases round with ⟨next, ran⟩
          rw [ran]
          exact absent next
      | some json =>
          rcases round with ⟨next, ran⟩
          rw [ran]
          exact present json next

/-- A stop in the loop ends the routine, and after the results the routine closes its text. -/
theorem WritesItems.thenWrites {numbers : NumberConversion} {heap : PlainHeap}
    {bytes : List UInt8} {stack inner : List EcmaObject} {held acquired lent : Multiset Pointer}
    {written : List (Option Json) → ℕ × List UInt8} {combine : List (Option Json) → Option Json}
    {visited : Except Stop (List (Option Json))}
    {program : Program Fault Effect Effect.Reply (World PlainHeap)
      ((EcmaValue × ℕ × StringifyContext) × Frame)}
    {proceed : (EcmaValue × ℕ × StringifyContext) × Frame → World PlainHeap →
      Program Fault Effect Effect.Reply (World PlainHeap) (Serialized × Frame)}
    (loop : WritesItems heap inner acquired lent written program visited)
    (stops : ∀ lastProp after raised next,
      proceed ((.error, lastProp, after), ⟨some raised, acquired, lent⟩) ⟨heap, next⟩ =
        .done ((.error, after), ⟨some raised, held, lent⟩) ⟨heap, next⟩)
    (closes : ∀ results next, ∃ json, combine results = some json ∧
      proceed ((.empty, (written results).1, plainContext (written results).2 inner),
          ⟨none, acquired, lent⟩) ⟨heap, next⟩ =
        .done ((.empty, plainContext (bytes ++ cesu8 (json.units numbers)) stack),
          ⟨none, held, lent⟩) ⟨heap, next⟩) :
    Writes numbers heap bytes stack held lent (program.bind proceed) (visited.map combine) := by
  cases visited with
  | error stop =>
      cases stop with
      | exhausted =>
          rw [WritesItems] at loop
          rw [loop]
          rfl
      | cyclic =>
          rcases loop with ⟨lastProp, after, address, next, ran⟩
          rw [ran, Program.bind_done, stops]
          exact ⟨after, address, next, rfl⟩
  | ok results =>
      rcases loop with ⟨next, ran⟩
      rcases closes results next with ⟨json, combined, closed⟩
      rw [ran, Program.bind_done, closed, Except.map, combined]
      exact ⟨next, rfl⟩

theorem asciiBytes_null (numbers : NumberConversion) :
    asciiBytes "null" = cesu8 (Json.null.units numbers) := by
  rw [Json.units]
  decide

theorem asciiBytes_boolean (numbers : NumberConversion) (value : Bool) :
    asciiBytes (if value then "true" else "false") = cesu8 ((Json.boolean value).units numbers) := by
  cases value with
  | true =>
      rw [Json.units]
      decide
  | false =>
      rw [Json.units]
      decide

/-- The pieces of a list, with a comma after each of them. -/
def piecesText (pieces : List (List CodeUnit)) : List UInt8 :=
  cesu8 (pieces.flatMap fun piece => piece ++ [0x2C])

theorem piecesText_nil : piecesText [] = [] := rfl

theorem piecesText_of_ne_nil {pieces : List (List CodeUnit)} (nonempty : pieces ≠ []) :
    piecesText pieces = cesu8 (commaSeparated pieces) ++ [0x2C] := by
  rw [piecesText, flatMap_comma nonempty, Unicode.cesu8_append]
  rfl

/-- Taking back the last comma leaves the separated pieces. -/
theorem take_piecesText (bytes : List UInt8) {pieces : List (List CodeUnit)}
    (nonempty : pieces ≠ []) :
    (bytes ++ piecesText pieces).take ((bytes ++ piecesText pieces).length - 1) =
      bytes ++ cesu8 (commaSeparated pieces) := by
  rw [piecesText_of_ne_nil nonempty, ← List.append_assoc, List.length_append,
    List.length_singleton, Nat.add_sub_cancel, List.take_left]

theorem closeObject_plainContext (bytes : List UInt8) (pieces : List (List CodeUnit))
    (object : EcmaObject) (stack : List EcmaObject) :
    (plainContext (bytes ++ piecesText pieces) (object :: stack)).closeObject bytes.length
        (bytes ++ piecesText pieces).length 0 =
      plainContext (bytes ++ cesu8 (commaSeparated pieces) ++ [0x7D]) stack := by
  by_cases isEmpty : pieces = []
  · subst isEmpty
    simp [StringifyContext.closeObject, piecesText_nil, commaSeparated, List.intercalate]
  · have longer : (bytes ++ piecesText pieces).length ≠ bytes.length := by
      simp [piecesText_of_ne_nil isEmpty]
    simp only [StringifyContext.closeObject, if_pos longer, revert_plainContext,
      take_piecesText bytes isEmpty, indent_plainContext, append_plainContext,
      leave_plainContext]

theorem closeArray_plainContext (bytes : List UInt8) (pieces : List (List CodeUnit))
    (object : EcmaObject) (stack : List EcmaObject) :
    (plainContext (bytes ++ piecesText pieces) (object :: stack)).closeArray bytes.length
        (if pieces = [] then bytes.length else (bytes ++ piecesText pieces).length - 1) 0 =
      plainContext (bytes ++ cesu8 (commaSeparated pieces) ++ [0x5D]) stack := by
  by_cases isEmpty : pieces = []
  · subst isEmpty
    simp [StringifyContext.closeArray, piecesText_nil, commaSeparated, List.intercalate]
  · simp only [if_neg isEmpty, StringifyContext.closeArray, revert_plainContext,
      take_piecesText bytes isEmpty, indent_plainContext, ite_self, append_plainContext,
      leave_plainContext]

/-- The reference to the object is given up after its routine. -/
theorem Writes.dereferenced {numbers : NumberConversion} {heap : PlainHeap} {bytes : List UInt8}
    {stack : List EcmaObject} {held lent : Multiset Pointer} {object : EcmaObject}
    {explored : Except Stop (Option Json)}
    {program : Program Fault Effect Effect.Reply (World PlainHeap) (Serialized × Frame)}
    (writes : Writes numbers heap bytes stack (held + {object.address}) lent program explored) :
    Writes numbers heap bytes stack held lent
      (program.bind fun answer changed =>
        ((Native.ecmaDerefObject object : Native PlainHeap Unit).run answer.2 changed).bind
          fun answer' changed =>
            (pure answer.1 : Native PlainHeap Serialized).run answer'.2 changed) explored := by
  match explored, writes with
  | .ok (some json), ⟨next, ran⟩ | .ok none, ⟨next, ran⟩ =>
      rw [ran]
      simp only [Program.bind_done, Native.ecmaDerefObject, Native.run_release_acquired,
        Routine.run_pure]
      exact ⟨next, rfl⟩
  | .error .cyclic, ⟨after, address, next, ran⟩ =>
      rw [ran]
      simp only [Program.bind_done, Native.ecmaDerefObject, Native.run_release_acquired,
        Routine.run_pure]
      exact ⟨after, address, next, rfl⟩
  | .error .exhausted, faulted =>
      rw [Writes] at faulted
      rw [faulted]
      rfl

namespace Native

variable {numbers : NumberConversion} {isMagicString : List CodeUnit → Bool} {heap : PlainHeap}
variable {held lent : Multiset Pointer} {fuel : ℕ} {serialize : Serializer PlainHeap}
variable {object : EcmaObject} {stack : List EcmaObject}

/-- The traversal of the values below an object. -/
abbrev exploreAll (heap : PlainHeap) (fuel : ℕ) (stack : List EcmaObject)
    (values : List EcmaValue) : Except Stop (List (Option Json)) :=
  values.mapM (explore heap.successors heap.combine fuel (pathOf stack))

theorem writesItems_serializeKeys (writes : WritesTrees numbers heap fuel serialize)
    (isStack : heap.IsStack stack)
    (objectAlive : (⟨none, held, lent⟩ : Frame).Alive {object.address})
    {properties : List Property}
    (reads : ∀ property ∈ properties, heap.read object property.1 = property.2)
    (owned : ∀ property ∈ properties, heap.Owns property.2.value)
    (keysAlive : ∀ property ∈ properties,
      (⟨none, held, lent⟩ : Frame).Alive property.1.references) :
    ∀ (bytes : List UInt8) (next : Pointer), WritesItems heap stack held lent
      (fun results =>
        let after := bytes ++
          piecesText (Json.memberUnits numbers (PlainHeap.members properties results))
        (after.length, after))
      ((serializeKeys serialize object 0 (properties.map Prod.fst) bytes.length
        (plainContext bytes stack)).run ⟨none, held, lent⟩ ⟨heap, next⟩)
      (exploreAll heap fuel stack (properties.map fun property => property.2.value)) := by
  induction properties with
  | nil =>
      intro bytes next
      exact ⟨next, by simp [serializeKeys, PlainHeap.members, Json.memberUnits, piecesText]⟩
  | cons property properties ih =>
      intro bytes next
      have ih := ih (fun other mem => reads other (List.mem_cons_of_mem property mem))
        (fun other mem => owned other (List.mem_cons_of_mem property mem))
        (fun other mem => keysAlive other (List.mem_cons_of_mem property mem))
      have keyAlive := keysAlive property List.mem_cons_self
      have isRead : (Holder.object object).read heap property.1 = property.2.value := by
        rw [Holder.read, reads property List.mem_cons_self]
      let before := bytes ++ cesu8 (quotedUnits property.1.units ++ [0x3A])
      have first := writes held lent next before stack (.object object) property.1 isStack
        (isRead ▸ owned property List.mem_cons_self) objectAlive keyAlive
      rw [isRead] at first
      have opened : bytes ++ ([0x22] ++ cesu8 (escapeUnits property.1.units) ++ [0x22]) ++ [0x3A] =
          before := by
        simp [before, quotedUnits, Unicode.encode]
      simp only [List.map_cons, serializeKeys, indent_plainContext, Routine.run_bind,
        run_quoteString _ keyAlive, Program.bind_done, append_plainContext, colon_plainContext,
        opened]
      rw [exploreAll, List.mapM_cons]
      refine first.thenItems ⟨bytes.length, fun after raised next => rfl⟩ ?absent ?present
      case absent =>
        intro next
        have reverted : before.take bytes.length = bytes := List.take_left
        simp only [EcmaValue.simple.injEq, reduceCtorEq, if_false, if_true, revert_plainContext,
          reverted]
        exact (ih bytes next).cons fun _ => rfl
      case present =>
        intro json next
        simp only [Program.bind_done, EcmaValue.simple.injEq, reduceCtorEq, if_false,
          decide_true, Routine.run_bind, run_jerryAssert_true, append_plainContext,
          resultBuilder_plainContext]
        apply (ih _ next).cons
        intro results
        have oneMore : before ++ cesu8 (json.units numbers) ++ [0x2C] ++ piecesText
            (Json.memberUnits numbers (PlainHeap.members properties results)) =
          bytes ++ piecesText (Json.memberUnits numbers
            (PlainHeap.members (property :: properties) (some json :: results))) := by
          simp [before, PlainHeap.members, Json.memberUnits, piecesText, Unicode.encode]
        simp only [oneMore]

theorem writesItems_serializeElements (writes : WritesTrees numbers heap fuel serialize)
    (isStack : heap.IsStack stack)
    (objectAlive : (⟨none, held, lent⟩ : Frame).Alive {object.address})
    {values : List ScriptValue} (owned : ∀ value ∈ values, heap.Owns value.value) :
    ∀ (index lastProp : ℕ), index + values.length < 2 ^ 32 →
      (∀ offset (inBounds : offset < values.length) (key : EcmaString),
        key.units = asciiUnits (Decimal.decimal (index + offset)) →
          heap.read object key = values[offset]) →
      ∀ (bytes : List UInt8) (next : Pointer), WritesItems heap stack held lent
        (fun results =>
          let after := bytes ++
            piecesText (Json.itemUnits numbers (results.map fun result => result.getD .null))
          (if results = [] then lastProp else after.length - 1, after))
        ((serializeElements (plainRealm numbers isMagicString) serialize object 0 values.length
          index lastProp (plainContext bytes stack)).run ⟨none, held, lent⟩ ⟨heap, next⟩)
        (exploreAll heap fuel stack (values.map ScriptValue.value)) := by
  induction values with
  | nil =>
      intro index lastProp _ _ bytes next
      exact ⟨next, by simp [serializeElements, Json.itemUnits, piecesText]⟩
  | cons value values ih =>
      intro index lastProp small reads bytes next
      rw [List.length_cons] at small
      have laterReads : ∀ offset (inBounds : offset < values.length) (key : EcmaString),
          key.units = asciiUnits (Decimal.decimal (index + 1 + offset)) →
            heap.read object key = values[offset] := by
        intro offset inBounds key text
        rw [add_right_comm] at text
        exact reads (offset + 1) (by simpa using inBounds) key text
      have ih := fun lastProp => ih
        (fun other mem => owned other (List.mem_cons_of_mem value mem)) (index + 1) lastProp
        (by omega) laterReads
      have made := settles_ecmaNewEcmaStringFromUint32 none held lent
        (⟨heap, next⟩ : World PlainHeap) index
      rcases made.eq_done with ⟨⟨key, frame⟩, ⟨script, next⟩, ran, text, sameFrame, sameScript⟩
      simp only at text sameFrame sameScript
      subst sameFrame sameScript
      have isRead : (Holder.object object).read script key = value.value := by
        rw [Holder.read, reads 0 (by simp) key text, List.getElem_cons_zero]
      have first := writes (held + key.references) lent next bytes stack (.object object) key
        isStack (isRead ▸ owned value List.mem_cons_self)
        (objectAlive.mono (Multiset.le_add_right _ _))
        (Frame.Alive.of_le_held (Multiset.le_add_left _ _))
      rw [isRead] at first
      simp only [List.length_cons, serializeElements, ecmaNewEcmaStringFromLength,
        show index < 2 ^ 32 by omega, if_true, Routine.run_bind, ran, Program.bind_done,
        indent_plainContext, ecmaDerefEcmaString]
      rw [List.map_cons, exploreAll, List.mapM_cons]
      have agree : ∀ (result : Option Json) (results : List (Option Json)),
          (let piece := bytes ++ cesu8 ((result.getD .null).units numbers)
           let after := piece ++ [0x2C] ++
            piecesText (Json.itemUnits numbers (results.map fun result => result.getD .null))
           ((if results = [] then piece.length else after.length - 1), after)) =
          (let after := bytes ++ piecesText (Json.itemUnits numbers
            ((result :: results).map fun result => result.getD .null))
           ((if result :: results = [] then lastProp else after.length - 1), after)) := by
        intro result results
        have oneMore : bytes ++ cesu8 ((result.getD .null).units numbers) ++ [0x2C] ++
            piecesText (Json.itemUnits numbers
              (results.map fun result => result.getD .null)) =
          bytes ++ piecesText (Json.itemUnits numbers
            ((result :: results).map fun result => result.getD .null)) := by
          simp [Json.itemUnits, piecesText, Unicode.encode]
        simp only [oneMore, reduceCtorEq, if_false, Prod.mk.injEq, and_true]
        split_ifs with isLast
        · subst isLast
          rw [← oneMore]
          simp [Json.itemUnits, piecesText]
        · rfl
      refine first.thenItems ⟨0, ?stops⟩ ?absent ?present
      case stops =>
        intro after raised next
        simp only [Program.bind_done, run_release_acquired, if_true, Routine.run_pure]
      case absent =>
        intro next
        simp only [Program.bind_done, run_release_acquired, EcmaValue.simple.injEq,
          reduceCtorEq, if_false, if_true, append_plainContext, Routine.run_bind,
          Routine.run_pure, resultBuilder_plainContext, asciiBytes_null numbers]
        exact (ih _ _ next).cons (agree none)
      case present =>
        intro json next
        simp only [Program.bind_done, run_release_acquired, EcmaValue.simple.injEq,
          reduceCtorEq, if_false, decide_true, Routine.run_bind, run_jerryAssert_true,
          Routine.run_pure, append_plainContext, resultBuilder_plainContext]
        exact (ih _ _ next).cons (agree (some json))

/-- The object routine against one step of the traversal. -/
theorem writes_serializeObject (writes : WritesTrees numbers heap fuel serialize)
    (isStack : heap.IsStack stack) (owns : heap.Owns (.object object))
    {properties hidden : List Property}
    (isCell : heap.cell object = some (.object properties hidden))
    (objectAlive : (⟨none, held, lent⟩ : Frame).Alive {object.address}) (bytes : List UInt8)
    (next : Pointer) :
    Writes numbers heap bytes stack held lent
      ((serializeObject (plainRealm numbers isMagicString) serialize (plainContext bytes stack)
        object).run ⟨none, held, lent⟩ ⟨heap, next⟩)
      (explore heap.successors heap.combine (fuel + 1) (pathOf stack) (.object object)) := by
  rw [explore]
  by_cases onPath : EcmaValue.object object ∈ pathOf stack
  · have inStack := (PlainHeap.hasObjectInStack_iff owns isStack bytes).mpr onPath
    simp only [if_pos onPath, serializeObject, inStack, if_true, Routine.run_bind,
      run_ecmaRaiseStandardError, Program.bind_done, Routine.run_pure]
    exact ⟨_, next, next + 1, rfl⟩
  · have notInStack := PlainHeap.not_hasObjectInStack owns isStack onPath bytes
    let ordered := enumerationOrder properties
    have named : (callUser ((plainRealm numbers isMagicString).enumerablePropertyNames
        object)).run ⟨none, held, lent⟩ ⟨heap, next⟩ =
          .done (some (ordered.map Prod.fst), ⟨none, held, lent⟩) ⟨heap, next⟩ := by
      apply run_callUser_of_done
      simp only [plainRealm, isCell]
      rfl
    have notCallable : heap.isCallable object = false := PlainHeap.isCallable_of_cell isCell
    have deeper := isStack.push owns notCallable
    have loop := @writesItems_serializeKeys _ _
      (held + ((ordered.map Prod.fst).map EcmaString.references).sum) _ _ _ object _ writes deeper
      (objectAlive.mono (Multiset.le_add_right _ _)) ordered
      (fun property mem => PlainHeap.read_property isCell mem)
      (fun property mem => PlainHeap.owns_child isCell (List.mem_map_of_mem mem))
      (fun property mem => Frame.Alive.of_le_held
        ((le_sum_map EcmaString.references (List.mem_map_of_mem mem)).trans
          (Multiset.le_add_left _ _)))
      (bytes ++ [0x7B]) next
    have below : heap.successors (.object object) =
        ordered.map fun property => property.2.value := by
      rw [PlainHeap.successors_object isCell]
      simp [PlainCell.children, ordered]
    simp only [if_neg onPath, serializeObject, notInStack, Bool.false_eq_true, if_false,
      enter_plainContext, propertyList_plainContext, indentBuilder_plainContext, List.length_nil,
      Routine.run_bind, run_touch _ _ objectAlive, Program.bind_done, named, run_acquire,
      serializeObjectKeys, append_plainContext, resultBuilder_plainContext, below]
    change Writes numbers heap bytes stack held lent _ ((exploreAll heap fuel (object :: stack)
      (ordered.map fun property => property.2.value)).map (heap.combine (.object object)))
    rw [Program.bind_assoc]
    refine loop.thenWrites ?stops ?closes
    case stops =>
      intro lastProp after raised next
      simp only [Program.bind_done, if_true, Routine.run_pure, run_release_acquired]
    case closes =>
      intro results next
      refine ⟨.object (PlainHeap.members ordered results), PlainHeap.combine_object isCell _, ?_⟩
      simp only [Program.bind_done, EcmaValue.simple.injEq, reduceCtorEq, if_false,
        Routine.run_pure, run_release_acquired, closeObject_plainContext]
      simp [Json.units, Unicode.encode]

/-- The array routine against one step of the traversal. -/
theorem writes_serializeArray (writes : WritesTrees numbers heap fuel serialize)
    (isStack : heap.IsStack stack) (owns : heap.Owns (.object object))
    {elements : List (Option ScriptValue)} {hidden : List Property}
    (isCell : heap.cell object = some (.array elements hidden))
    (objectAlive : (⟨none, held, lent⟩ : Frame).Alive {object.address}) (bytes : List UInt8)
    (next : Pointer) :
    Writes numbers heap bytes stack held lent
      ((serializeArray (plainRealm numbers isMagicString) serialize (plainContext bytes stack)
        object).run ⟨none, held, lent⟩ ⟨heap, next⟩)
      (explore heap.successors heap.combine (fuel + 1) (pathOf stack) (.object object)) := by
  rw [explore]
  have isArray : decide ((plainRealm numbers isMagicString).isArray ⟨heap, next⟩ object =
      some true) = true := by
    simp [plainRealm, PlainHeap.isArray_of_cell isCell, PlainCell.isArray]
  by_cases onPath : EcmaValue.object object ∈ pathOf stack
  · have inStack := (PlainHeap.hasObjectInStack_iff owns isStack bytes).mpr onPath
    simp only [if_pos onPath, serializeArray, Routine.run_bind, run_readWorld, Program.bind_done,
      run_touch _ _ objectAlive, isArray, run_jerryAssert_true, inStack, if_true,
      run_ecmaRaiseStandardError, Routine.run_pure]
    exact ⟨_, next, next + 1, rfl⟩
  · have notInStack := PlainHeap.not_hasObjectInStack owns isStack onPath bytes
    let values := elements.map fun element => element.getD ⟨.undefined, rfl⟩
    have sized : (callUser ((plainRealm numbers isMagicString).getLength object)).run
        ⟨none, held, lent⟩ ⟨heap, next⟩ =
          .done (some values.length, ⟨none, held, lent⟩) ⟨heap, next⟩ := by
      apply run_callUser_of_done
      simp [plainRealm, isCell, values]
    have notCallable : heap.isCallable object = false := PlainHeap.isCallable_of_cell isCell
    have deeper := isStack.push owns notCallable
    have small : 0 + values.length < 2 ^ 32 := by
      have bounded := heap.isPlain.arrayLength elements hidden (PlainHeap.mem_cells isCell)
      simpa [values] using bounded
    have reads : ∀ offset (inBounds : offset < values.length) (key : EcmaString),
        key.units = asciiUnits (Decimal.decimal (0 + offset)) →
          heap.read object key = values[offset] := by
      intro offset inBounds key text
      rw [zero_add] at text
      rw [PlainHeap.read_element isCell (by simpa [values] using inBounds) text]
      simp [values]
    have loop := @writesItems_serializeElements _ isMagicString _ _ _ _ _ object _ writes deeper
      objectAlive values (fun value mem => PlainHeap.owns_child isCell mem) 0
      (bytes ++ [0x5B]).length small reads (bytes ++ [0x5B]) next
    have below : heap.successors (.object object) = values.map ScriptValue.value :=
      PlainHeap.successors_object isCell
    simp only [if_neg onPath, serializeArray, Routine.run_bind, run_readWorld, Program.bind_done,
      run_touch _ _ objectAlive, isArray, run_jerryAssert_true, notInStack, Bool.false_eq_true,
      if_false, enter_plainContext, indentBuilder_plainContext, List.length_nil, sized,
      append_plainContext, resultBuilder_plainContext, below]
    change Writes numbers heap bytes stack held lent _ ((exploreAll heap fuel (object :: stack)
      (values.map ScriptValue.value)).map (heap.combine (.object object)))
    refine loop.thenWrites ?stops ?closes
    case stops => exact fun lastProp after raised next => rfl
    case closes =>
      intro results next
      have sameEmpty : Json.itemUnits numbers (results.map fun result => result.getD .null) = [] ↔
          results = [] := by
        rw [Json.itemUnits_eq, List.map_eq_nil_iff, List.map_eq_nil_iff]
      have closed := closeArray_plainContext (bytes ++ [0x5B])
        (Json.itemUnits numbers (results.map fun result => result.getD .null)) object stack
      simp only [sameEmpty] at closed
      refine ⟨_, PlainHeap.combine_array isCell _, ?_⟩
      simp only [EcmaValue.simple.injEq, reduceCtorEq, if_false, Routine.run_pure, closed]
      simp [Json.units, Unicode.encode]

/-- A finite number is written as its conversion to a string. -/
theorem writes_serializeNumber {value : EcmaValue} {number : EcmaNumber}
    (valid : value.specDefined = true) (notObject : value.isObject = false)
    (text : primitiveUnits (plainRealm numbers isMagicString) value =
      some (numberUnits numbers number))
    (noString : ecmaOpToString (plainRealm numbers isMagicString) value =
      ecmaOpToStringPrimitive (plainRealm numbers isMagicString) value)
    (bytes : List UInt8) (next : Pointer) :
    Writes numbers heap bytes stack held lent
      ((serializeNumber (plainRealm numbers isMagicString) (plainContext bytes stack) value
        number).run ⟨none, held + value.references, lent⟩ ⟨heap, next⟩)
      (.ok (some (if number.isFinite then .number number else .null))) := by
  by_cases isFinite : number.isFinite = true
  · have owned : (⟨none, held + value.references, lent⟩ : Frame).Alive value.references :=
      Frame.Alive.of_le_held (Multiset.le_add_left _ _)
    rcases (settles_ecmaOpToStringPrimitive (plainRealm numbers isMagicString)
      (held + value.references) lent ⟨heap, next⟩ valid notObject owned).eq_done with
      ⟨⟨string, frame⟩, ⟨script, next⟩, ran, sameText, returns, sameScript⟩
    simp only at sameText returns sameScript
    subst sameScript
    rw [text] at sameText
    rcases returns with ⟨rfl, _⟩ | ⟨string, rfl, rfl⟩
    · cases sameText
    · rw [Option.map_some, Option.some.injEq] at sameText
      simp only [serializeNumber, isFinite, if_true, Routine.run_bind, noString, ran,
        Program.bind_done, ecmaDerefEcmaString, run_release_acquired,
        ecmaFreeValue_eq_release valid, append_plainContext, Routine.run_pure]
      refine ⟨next, ?_⟩
      rw [EcmaString.bytes, sameText, Json.units]
  · simp only [serializeNumber, if_neg isFinite, Routine.run_bind,
      ecmaFreeValue_eq_release valid, run_release_acquired, Program.bind_done,
      append_plainContext, Routine.run_pure, asciiBytes_null numbers]
    exact ⟨next, rfl⟩

/-- The last steps of an object against one step of the traversal: a callable object is left
out, the others are written by their routines. -/
theorem writes_serializeValue_object (writes : WritesTrees numbers heap fuel serialize)
    (isStack : heap.IsStack stack) (owns : heap.Owns (.object object)) (bytes : List UInt8)
    (next : Pointer) :
    Writes numbers heap bytes stack held lent
      ((serializeValue (plainRealm numbers isMagicString) serialize (plainContext bytes stack)
        (.object object)).run ⟨none, held + {object.address}, lent⟩ ⟨heap, next⟩)
      (explore heap.successors heap.combine (fuel + 1) (pathOf stack) (.object object)) := by
  have owned : (⟨none, held + {object.address}, lent⟩ : Frame).Alive {object.address} :=
    Frame.Alive.of_le_held (Multiset.le_add_left _ _)
  rcases owns.exists_cell with ⟨cell, isCell⟩
  have asked := @run_ecmaOpIsCallable_plain numbers isMagicString heap _ _ next
    (.object object) owned
  have called := PlainHeap.isCallable_of_cell isCell
  simp only [serializeValue, Routine.run_bind, asked, Program.bind_done, PlainHeap.isFunction,
    called]
  cases cell with
  | callable hidden =>
      have notOnPath := PlainHeap.callable_not_mem_pathOf isStack called
      have noForm : explore heap.successors heap.combine (fuel + 1) (pathOf stack)
          (.object object) = .ok none := by
        rw [explore, if_neg notOnPath, PlainHeap.successors_object isCell]
        exact congrArg Except.ok (PlainHeap.combine_callable isCell [])
      have freed := run_release_acquired (⟨heap, next⟩ : World PlainHeap) none held
        {object.address} lent
      simp only [PlainCell.isCallable, if_true, ecmaFreeValue_eq_release owns.specDefined,
        EcmaValue.references_object, Routine.run_bind, freed, Program.bind_done,
        Routine.run_pure, noForm]
      exact ⟨next, rfl⟩
  | object properties hidden =>
      have notArray : (plainRealm numbers isMagicString).isArray ⟨heap, next⟩ object =
          some false := congrArg some (PlainHeap.isArray_of_cell isCell)
      simp only [PlainCell.isCallable, Bool.false_eq_true, if_false, Routine.run_bind,
        run_readWorld, Program.bind_done, notArray]
      exact (writes_serializeObject writes isStack owns isCell owned bytes next).dereferenced
  | array elements hidden =>
      have isArray : (plainRealm numbers isMagicString).isArray ⟨heap, next⟩ object =
          some true := congrArg some (PlainHeap.isArray_of_cell isCell)
      simp only [PlainCell.isCallable, Bool.false_eq_true, if_false, Routine.run_bind,
        run_readWorld, Program.bind_done, isArray]
      exact (writes_serializeArray writes isStack owns isCell owned bytes next).dereferenced

/-- The last steps of a property against one step of the traversal. -/
theorem writes_serializeValue (writes : WritesTrees numbers heap fuel serialize)
    (isStack : heap.IsStack stack) {value : EcmaValue} (owns : heap.Owns value)
    (bytes : List UInt8) (next : Pointer) :
    Writes numbers heap bytes stack held lent
      ((serializeValue (plainRealm numbers isMagicString) serialize (plainContext bytes stack)
        value).run ⟨none, held + value.references, lent⟩ ⟨heap, next⟩)
      (explore heap.successors heap.combine (fuel + 1) (pathOf stack) value) := by
  have valid := owns.specDefined
  have plain := owns.plain
  have owned : (⟨none, held + value.references, lent⟩ : Frame).Alive value.references :=
    Frame.Alive.of_le_held (Multiset.le_add_left _ _)
  have leaf : value.isObject = false → explore heap.successors heap.combine (fuel + 1)
      (pathOf stack) value = .ok (heap.combine value []) := by
    intro notObject
    rw [explore, if_neg (PlainHeap.not_object_not_mem_pathOf notObject)]
    cases value with
    | object object => cases notObject
    | _ => rfl
  cases value with
  | object object => exact writes_serializeValue_object writes isStack owns bytes next
  | string string =>
      rw [EcmaValue.references_string] at owned
      rw [leaf rfl]
      simp only [serializeValue, Routine.run_bind, EcmaValue.references_string,
        run_quoteString _ owned, Program.bind_done, ecmaDerefEcmaString, run_release_acquired,
        Routine.run_pure, append_plainContext]
      refine ⟨next, ?_⟩
      simp [Json.units, quotedUnits, Unicode.encode]
  | integer number =>
      rw [leaf rfl]
      exact writes_serializeNumber valid rfl (primitiveUnits_integer _ plain) rfl bytes next
  | float address number =>
      rw [EcmaValue.references_float] at owned
      rw [leaf rfl]
      simp only [serializeValue, Routine.run_bind, EcmaValue.references_float,
        run_touch _ _ owned, Program.bind_done]
      exact @writes_serializeNumber _ _ _ _ _ _ (.float address number) _ valid rfl rfl rfl bytes
        next
  | bigintZero | bigint _ _ => cases plain
  | exception _ _ _ => cases valid
  | symbol address description =>
      rw [leaf rfl]
      simp only [serializeValue, Routine.run_bind, ecmaFreeValue_eq_release valid,
        run_release_acquired, Program.bind_done, Routine.run_pure]
      exact ⟨next, rfl⟩
  | simple simple =>
      rw [leaf rfl]
      cases simple with
      | null =>
          refine ⟨next, ?_⟩
          simp [serializeValue, asciiBytes_null numbers]
      | true =>
          refine ⟨next, ?_⟩
          simp [serializeValue, ← asciiBytes_boolean]
      | false =>
          refine ⟨next, ?_⟩
          simp [serializeValue, ← asciiBytes_boolean]
      | undefined =>
          refine ⟨next, ?_⟩
          simp [serializeValue, ecmaFreeValue_eq_release valid]
      | _ => cases valid

/-- One property against the traversal, if the properties below it are. -/
theorem writesTrees_serializePropertyWith (writes : WritesTrees numbers heap fuel serialize) :
    WritesTrees numbers heap (fuel + 1)
      (serializePropertyWith (plainRealm numbers isMagicString) serialize) := by
  intro held lent next bytes stack holder key isStack owns holderAlive keyAlive
  rw [run_serializePropertyWith_plain owns holderAlive keyAlive]
  exact writes_serializeValue writes isStack owns bytes next

/-- The serialiser writes what the traversal finds, for every amount of fuel. -/
theorem writesTrees_ecmaBuiltinJsonSerializeProperty (fuel : ℕ) :
    WritesTrees numbers heap fuel
      (ecmaBuiltinJsonSerializeProperty (plainRealm numbers isMagicString) fuel) := by
  induction fuel with
  | zero =>
      intro held lent next bytes stack holder key _ _ _ _
      rfl
  | succ fuel ih => exact writesTrees_serializePropertyWith ih

end Native

end Cmsframe
