import Cmsframe.Memory.Collected
import Mathlib.Logic.Relation

/-!
# Programs and the collector

A program creates objects, takes and gives back references, and changes what its objects refer
to. The collector runs in between, whenever memory is short. Whatever the order of these steps,
no object refers to one that was freed, and a run of the collector leaves the objects in use as
they are.
-/

namespace Cmsframe

open Marking

universe u

variable {Object : Type u}

/-- What a program may store in its objects: what is there already, and references to objects it
can reach. -/
def Stores (context : GcContext Object) (graph : Graph Object) : Prop :=
  ∀ owner ∈ context.objects, ∀ reference ∈ graph.references owner,
    reference ∈ context.graph.references owner ∨
      match reference with
      | .strong target => context.InUse target
      | .weak other target =>
          context.InUse other ∧ ∀ node, target = some node → context.InUse node

/-- One step of a program or of the collector. -/
inductive GcStep [DecidableEq Object] (cpointer32Bit : Bool) (limit : ℕ) :
    GcContext Object → GcContext Object → Prop where
  | create {context : GcContext Object} {object : Object} {prototype : Option Object}
      (isNew : object ∉ context.objects)
      (reached : ∀ node, prototype = some node → context.InUse node) :
      GcStep cpointer32Bit limit context (ecmaCreateObject prototype context object)
  | ref {context after : GcContext Object} {object : Object} (reached : context.InUse object)
      (returns : ecmaRefObject cpointer32Bit context object = .ok after) :
      GcStep cpointer32Bit limit context after
  | deref {context after : GcContext Object} {object : Object} (inHeap : object ∈ context.objects)
      (returns : ecmaDerefObject context object = .ok after) :
      GcStep cpointer32Bit limit context after
  | write {context : GcContext Object} {graph : Graph Object} (stores : Stores context graph) :
      GcStep cpointer32Bit limit context { context with graph }
  | collect {context after : GcContext Object} (pressure : JmemPressure)
      (returns : ecmaFreeUnusedMemory cpointer32Bit limit context pressure = .ok after) :
      GcStep cpointer32Bit limit context after

/-- The heap of an engine that was just started. -/
def GcContext.empty : GcContext Object where
  graph := ⟨fun _ => [], fun mem => by cases mem⟩
  objects := []
  refs _ := 0
  objectsNumber := 0
  newObjects := 0

variable {cpointer32Bit : Bool} {limit : ℕ} {context after : GcContext Object} {object : Object}

theorem one_le_ecmaObjectMaxRef (cpointer32Bit : Bool) : 1 ≤ ecmaObjectMaxRef cpointer32Bit := by
  cases cpointer32Bit <;> decide

theorem GcContext.WellFormed.write (wellFormed : context.WellFormed cpointer32Bit)
    {graph : Graph Object} (stores : Stores context graph) :
    GcContext.WellFormed cpointer32Bit { context with graph } where
  nodup := wellFormed.nodup
  counted := wellFormed.counted
  number := wellFormed.number
  contained := by
    intro owner inHeap reference refers
    rcases stores owner inHeap reference refers with wasThere | isNew
    · exact wellFormed.contained owner inHeap reference wasThere
    · cases reference with
      | strong target => exact wellFormed.inHeap isNew
      | weak other target =>
          exact ⟨wellFormed.inHeap isNew.1, fun node isTarget =>
            wellFormed.inHeap (isNew.2 node isTarget)⟩

theorem wellFormed_empty (cpointer32Bit : Bool) :
    GcContext.WellFormed cpointer32Bit (GcContext.empty : GcContext Object) where
  nodup := List.nodup_nil
  counted object mem := by cases mem
  number := rfl
  contained owner mem := by cases mem

variable [DecidableEq Object]

theorem GcContext.WellFormed.create (wellFormed : context.WellFormed cpointer32Bit)
    {prototype : Option Object} (isNew : object ∉ context.objects)
    (reached : ∀ node, prototype = some node → context.InUse node) :
    (ecmaCreateObject prototype context object).WellFormed cpointer32Bit where
  nodup := List.nodup_cons.mpr ⟨isNew, wellFormed.nodup⟩
  counted := by
    intro other mem
    simp only [ecmaCreateObject]
    by_cases same : other = object
    · rw [same, Function.update_self]
      exact one_le_ecmaObjectMaxRef cpointer32Bit
    · rw [Function.update_of_ne same]
      exact wellFormed.counted other ((List.mem_cons.mp mem).resolve_left same)
  number := by
    simp only [ecmaCreateObject, List.length_cons, wellFormed.number]
  contained := by
    intro owner ownerMem reference refers
    simp only [ecmaCreateObject] at refers
    split_ifs at refers with isOwner
    · simp only [List.mem_map, Option.mem_toList] at refers
      rcases refers with ⟨node, isPrototype, rfl⟩
      exact List.mem_cons_of_mem object (wellFormed.inHeap (reached node isPrototype))
    · simp only [removeObject, if_neg isOwner, List.mem_filter] at refers
      have within := wellFormed.contained owner ((List.mem_cons.mp ownerMem).resolve_left isOwner)
        reference refers.1
      cases reference with
      | strong target => exact List.mem_cons_of_mem object within
      | weak other target =>
          exact ⟨List.mem_cons_of_mem object within.1, fun node isTarget =>
            List.mem_cons_of_mem object (within.2 node isTarget)⟩

/-- A step that changes nothing but one count. -/
theorem GcContext.WellFormed.recount (wellFormed : context.WellFormed cpointer32Bit) {count : ℕ}
    (bounded : count ≤ ecmaObjectMaxRef cpointer32Bit) :
    GcContext.WellFormed cpointer32Bit
      { context with refs := Function.update context.refs object count } where
  nodup := wellFormed.nodup
  counted := by
    intro other mem
    simp only
    by_cases same : other = object
    · rwa [same, Function.update_self]
    · rw [Function.update_of_ne same]
      exact wellFormed.counted other mem
  number := wellFormed.number
  contained := wellFormed.contained

/-- What is in use after a run of the collector was in use before, and stays so. -/
theorem ecmaGcRun_inUse (wellFormed : context.WellFormed cpointer32Bit) (positive : 0 < limit)
    (returns : ecmaGcRun cpointer32Bit limit context = .ok after) (object : Object) :
    after.InUse object ↔ context.InUse object := by
  rcases ecmaGcRun_spec wellFormed positive with ⟨result, again, _, kept, same, _⟩
  cases returns.symm.trans again
  constructor
  · intro inUse
    induction inUse with
    | root isRoot => exact (kept _).mp isRoot.1
    | strong _ refers ih =>
        rw [(same _ ((kept _).mpr ih)).2] at refers
        exact .strong ih (List.mem_filter.mp refers).1
    | weak _ _ refers ih ihOther =>
        rw [(same _ ((kept _).mpr ih)).2] at refers
        exact .weak ih ihOther (List.mem_filter.mp refers).1
  · intro inUse
    have stays : ∀ {owner : Object} {reference : Reference Object}, context.InUse owner →
        reference ∈ context.graph.references owner → entryWithin after.objects reference = true →
          reference ∈ after.graph.references owner := by
      intro owner reference ownerLive refers within
      rw [(same owner ((kept owner).mpr ownerLive)).2]
      exact List.mem_filter.mpr ⟨refers, within⟩
    induction inUse with
    | root isRoot =>
        have isKept := (kept _).mpr (.root isRoot)
        refine .root ⟨isKept, ?_⟩
        rw [(same _ isKept).1]
        exact isRoot.2
    | strong live refers ih => exact .strong ih (stays live refers rfl)
    | weak live otherLive refers ih ihOther =>
        refine .weak ih ihOther (stays live refers ?_)
        simpa [entryWithin] using (kept _).mpr otherLive

/-- A collection happens under high pressure, and under low pressure if it is worthwhile. -/
theorem ecmaFreeUnusedMemory_cases {pressure : JmemPressure}
    (returns : ecmaFreeUnusedMemory cpointer32Bit limit context pressure = .ok after) :
    ecmaGcRun cpointer32Bit limit context = .ok after ∨ pressure = .low ∧ after = context := by
  cases pressure with
  | low =>
      rw [ecmaFreeUnusedMemory] at returns
      split_ifs at returns with isWorthwhile
      · exact .inl returns
      · exact .inr ⟨rfl, (Except.ok.inj returns).symm⟩
  | high => exact .inl returns

/-- Every step of a program or of the collector keeps the heap well formed. -/
theorem GcStep.wellFormed (positive : 0 < limit) (step : GcStep cpointer32Bit limit context after)
    (wellFormed : context.WellFormed cpointer32Bit) : after.WellFormed cpointer32Bit := by
  cases step with
  | create isNew reached => exact wellFormed.create isNew reached
  | ref reached returns =>
      rw [ecmaRefObject] at returns
      split_ifs at returns with bounded
      cases returns
      exact wellFormed.recount bounded
  | deref inHeap returns =>
      rw [ecmaDerefObject] at returns
      split_ifs at returns with isCounted
      cases returns
      exact wellFormed.recount ((Nat.sub_le _ _).trans (wellFormed.counted _ inHeap))
  | write stores => exact wellFormed.write stores
  | collect pressure returns =>
      rcases ecmaGcRun_spec wellFormed positive with ⟨result, again, resultWellFormed, _⟩
      rcases ecmaFreeUnusedMemory_cases returns with runs | ⟨_, rfl⟩
      · cases runs.symm.trans again
        exact resultWellFormed
      · exact wellFormed

/-- In every run of a program with its collector, a call of `ecma_free_unused_memory` returns and
leaves the objects in use as they are. Under high pressure no other object is left. -/
theorem ecmaFreeUnusedMemory_run (cpointer32Bit : Bool) (positive : 0 < limit)
    (run : Relation.ReflTransGen (GcStep cpointer32Bit limit) GcContext.empty context)
    (pressure : JmemPressure) :
    ∃ after, ecmaFreeUnusedMemory cpointer32Bit limit context pressure = .ok after ∧
      (∀ object, after.InUse object ↔ context.InUse object) ∧
      (∀ object, context.InUse object → object ∈ after.objects ∧
        after.refs object = context.refs object ∧
        ∀ reference, entryWithin after.objects reference = true →
          (reference ∈ after.graph.references object ↔
            reference ∈ context.graph.references object)) ∧
      (pressure = .high → ∀ object, object ∈ after.objects ↔ context.InUse object) := by
  have wellFormed : context.WellFormed cpointer32Bit := by
    induction run with
    | refl => exact wellFormed_empty cpointer32Bit
    | tail _ step ih => exact step.wellFormed positive ih
  rcases ecmaGcRun_spec wellFormed positive with ⟨result, returns, _, kept, same, _⟩
  have collects : (∀ object, result.InUse object ↔ context.InUse object) ∧
      ∀ object, context.InUse object → object ∈ result.objects ∧
        result.refs object = context.refs object ∧
        ∀ reference, entryWithin result.objects reference = true →
          (reference ∈ result.graph.references object ↔
            reference ∈ context.graph.references object) := by
    refine ⟨ecmaGcRun_inUse wellFormed positive returns, fun object inUse => ?_⟩
    have isKept := (kept object).mpr inUse
    refine ⟨isKept, (same object isKept).1, fun reference within => ?_⟩
    rw [(same object isKept).2, List.mem_filter]
    exact and_iff_left within
  cases pressure with
  | low =>
      rw [ecmaFreeUnusedMemory]
      split_ifs with isWorthwhile
      · exact ⟨result, returns, collects.1, collects.2, fun isHigh => by cases isHigh⟩
      · refine ⟨context, rfl, fun _ => Iff.rfl, fun object inUse => ⟨wellFormed.inHeap inUse, rfl,
          fun _ _ => Iff.rfl⟩, fun isHigh => by cases isHigh⟩
  | high => exact ⟨result, returns, collects.1, collects.2, fun _ => kept⟩

/-- An object and one made after it, which is given back. -/
theorem ecmaFreeUnusedMemory_run_two :
    let first := ecmaCreateObject none GcContext.empty 0
    let second := ecmaCreateObject (some 0) first 1
    ∃ after, ecmaFreeUnusedMemory false 8
        { second with refs := Function.update second.refs 1 0 } .high = .ok after ∧
      ∀ object : ℕ, object ∈ after.objects ↔
        GcContext.InUse { second with refs := Function.update second.refs 1 0 } object := by
  intro first second
  have reached : ∀ node, some 0 = some node → first.InUse node := by
    rintro _ ⟨rfl⟩
    exact .root ⟨List.mem_singleton_self 0, by decide⟩
  have run : Relation.ReflTransGen (GcStep false 8) GcContext.empty
      { second with refs := Function.update second.refs 1 0 } :=
    ((Relation.ReflTransGen.refl.tail (.create List.not_mem_nil (by simp))).tail
      (.create (by decide) reached)).tail (.deref (by decide : 1 ∈ second.objects) rfl)
  rcases ecmaFreeUnusedMemory_run false (by decide) run .high with ⟨after, returns, _, _, onlyInUse⟩
  exact ⟨after, returns, onlyInUse rfl⟩

end Cmsframe
