import Cmsframe.Library.Marking
import Mathlib.Logic.Function.Basic
import Mathlib.Algebra.Ring.Nat

/-!
# The garbage collector

`ecma_gc_run` and the reference counts it works with. The count field of an object also holds
its colour while the collector runs: all bits set for an object that was not visited, one for
a visited object that is left for later, because the recursion limit was reached. What
`ecma_gc_mark` reads from an object is the list of its references, in the order in which they
are marked. The entries of weak maps, weak sets and weak references are the weak ones. They
are found in the container and in the key.
-/

namespace Cmsframe

open Marking

universe u

variable {Object : Type u}

/-- `ECMA_OBJECT_NON_VISITED`, as a reference count: the descriptor has 16 bits, or 32 with
32-bit compressed pointers, five of which are not part of the count. -/
def ecmaObjectNonVisited (cpointer32Bit : Bool) : ℕ :=
  if cpointer32Bit then 2 ^ 27 - 1 else 2 ^ 11 - 1

/-- `ECMA_OBJECT_MAX_REF`. -/
def ecmaObjectMaxRef (cpointer32Bit : Bool) : ℕ := ecmaObjectNonVisited cpointer32Bit - 1

/-- The reference counts of the objects. -/
abbrev RefCounts (Object : Type u) := Object → ℕ

/-- What the collector works on: the list at `ecma_gc_objects_cp`, the counts, the counters of
the context, and the references in the objects. -/
structure GcContext (Object : Type u) where
  graph : Graph Object
  objects : List Object
  refs : RefCounts Object
  objectsNumber : ℕ
  newObjects : ℕ

/-- What would stop the engine: an object that was freed is used, the collector does not end, a
count is at its limit, or a reference is given back that was not taken. -/
inductive GcFault where
  | freedObject
  | outOfFuel
  | refCountLimit
  | notReferenced
  deriving DecidableEq

section Marker

variable (cpointer32Bit : Bool)

/-- `ecma_gc_is_object_visited`. -/
def ecmaGcIsObjectVisited (refs : RefCounts Object) (object : Object) : Bool :=
  refs object < ecmaObjectNonVisited cpointer32Bit

/-- `ecma_gc_mark` on the references it has not come to yet. -/
def markReferences (visit : RefCounts Object → Object → RefCounts Object) :
    List (Reference Object) → RefCounts Object → RefCounts Object
  | [], refs => refs
  | .strong target :: references, refs => markReferences visit references (visit refs target)
  | .weak _ none :: references, refs => markReferences visit references refs
  | .weak other (some target) :: references, refs =>
      markReferences visit references
        (if ecmaGcIsObjectVisited cpointer32Bit refs other then visit refs target else refs)

variable [DecidableEq Object] (graph : Graph Object)

/-- `ecma_gc_set_object_visited`, with `ecma_gc_mark_recursion_limit`. All bits of the count are
set for an object that was not visited, so the masks leave zero or one. -/
def ecmaGcSetObjectVisited : ℕ → RefCounts Object → Object → RefCounts Object
  | 0, refs, object =>
      if ecmaObjectNonVisited cpointer32Bit ≤ refs object then
        Function.update refs object 1
      else
        refs
  | limit + 1, refs, object =>
      if ecmaObjectNonVisited cpointer32Bit ≤ refs object then
        markReferences cpointer32Bit (ecmaGcSetObjectVisited limit) (graph.references object)
          (Function.update refs object 0)
      else
        refs

/-- `ecma_gc_set_object_visited` in a build with a `JERRY_GC_MARK_LIMIT` of zero: the references
of the object are not gone through, now or later. -/
def ecmaGcSetObjectVisitedOnly (refs : RefCounts Object) (object : Object) : RefCounts Object :=
  if ecmaObjectNonVisited cpointer32Bit ≤ refs object then
    Function.update refs object 0
  else
    refs

/-- `ecma_gc_mark`, in a build with this `JERRY_GC_MARK_LIMIT`. -/
def ecmaGcMark (limit : ℕ) (refs : RefCounts Object) (object : Object) : RefCounts Object :=
  markReferences cpointer32Bit
    (if limit = 0 then ecmaGcSetObjectVisitedOnly cpointer32Bit
      else ecmaGcSetObjectVisited cpointer32Bit graph limit)
    (graph.references object) refs

/-- The two lists of `ecma_gc_run`, with the counts. -/
structure GcLists (Object : Type u) where
  refs : RefCounts Object
  black : List Object
  whiteGray : List Object

/-- The loop that moves the root objects to the black list. -/
def moveRoots : List Object → GcLists Object → GcLists Object
  | [], lists => lists
  | object :: objects, lists =>
      if 1 ≤ lists.refs object then
        moveRoots objects { lists with black := lists.black ++ [object] }
      else
        moveRoots objects
          { lists with
            refs := Function.update lists.refs object (ecmaObjectNonVisited cpointer32Bit)
            whiteGray := lists.whiteGray ++ [object] }

/-- The loop that marks the root objects. -/
def markRoots (limit : ℕ) (roots : List Object) (refs : RefCounts Object) : RefCounts Object :=
  roots.foldl (ecmaGcMark cpointer32Bit graph limit) refs

/-- One pass over the white and gray list, with `marked_anything_during_current_iteration`. The
objects that stay are collected in `whiteGray`. -/
def scanWhiteGray (limit : ℕ) :
    List Object → GcLists Object → Bool → GcLists Object × Bool
  | [], lists, markedAnything => (lists, markedAnything)
  | object :: objects, lists, markedAnything =>
      if ecmaGcIsObjectVisited cpointer32Bit lists.refs object then
        if limit = 0 then
          scanWhiteGray limit objects { lists with black := lists.black ++ [object] } true
        else if 1 ≤ lists.refs object then
          scanWhiteGray limit objects
            { lists with
              refs := ecmaGcMark cpointer32Bit graph limit (Function.update lists.refs object 0)
                object
              black := lists.black ++ [object] } true
        else
          scanWhiteGray limit objects { lists with black := lists.black ++ [object] }
            markedAnything
      else
        scanWhiteGray limit objects { lists with whiteGray := lists.whiteGray ++ [object] }
          markedAnything

/-- The loop of passes. -/
def markNonRoots (limit : ℕ) : ℕ → GcLists Object → Except GcFault (GcLists Object)
  | 0, _ => .error .outOfFuel
  | fuel + 1, lists =>
      let pass := scanWhiteGray cpointer32Bit graph limit lists.whiteGray
        { lists with whiteGray := [] } false
      if pass.2 then markNonRoots limit fuel pass.1 else .ok pass.1

end Marker

variable [DecidableEq Object]

/-- An entry that another object takes part in. -/
def isEntryOf (object : Object) : Reference Object → Bool
  | .strong _ => false
  | .weak other _ => other = object

/-- The other object of an entry is one of these objects. -/
def entryWithin (objects : List Object) : Reference Object → Bool
  | .strong _ => true
  | .weak other _ => other ∈ objects

/-- The references after an object is freed: the entries it takes part in are removed. -/
def removeObject (graph : Graph Object) (object : Object) : Graph Object where
  references owner :=
    if owner = object then [] else
      (graph.references owner).filter fun reference => !isEntryOf object reference
  paired := by
    intro owner other target
    split_ifs with isOwner isOther isOther
    · intro mem
      cases mem
    · intro mem
      cases mem
    · intro mem
      simp [isEntryOf, isOther] at mem
    · intro mem
      rw [List.mem_filter] at mem ⊢
      exact ⟨graph.paired mem.1, by simpa [isEntryOf] using isOwner⟩

/-- `ecma_gc_free_object`, as far as other objects are concerned: the other object of each weak
entry is looked up to remove the entry there. -/
def ecmaGcFreeObject (present : List Object) (context : GcContext Object) (object : Object) :
    Except GcFault (GcContext Object) :=
  if (context.graph.references object).all (entryWithin present) then
    .ok { context with
      graph := removeObject context.graph object
      objectsNumber := context.objectsNumber - 1 }
  else
    .error .freedObject

/-- The loop that frees the unmarked objects. `kept` are the marked ones. -/
def sweep (kept : List Object) : List Object → GcContext Object →
    Except GcFault (GcContext Object)
  | [], context => .ok context
  | object :: objects, context =>
      match ecmaGcFreeObject (kept ++ object :: objects) context object with
      | .error reason => .error reason
      | .ok context => sweep kept objects context

/-- `ecma_create_object`, with the memory the allocator gave to it. The descriptor is not
referred to by anything, so there is no entry it takes part in. -/
def ecmaCreateObject (prototype : Option Object) (context : GcContext Object) (object : Object) :
    GcContext Object where
  graph :=
    { references := fun owner =>
        if owner = object then prototype.toList.map .strong
        else (removeObject context.graph object).references owner
      paired := by
        intro owner other target
        split_ifs with isOwner isOther isOther
        · simp
        · simp
        · intro mem
          subst isOther
          simp [removeObject, isOwner, isEntryOf] at mem
        · exact (removeObject context.graph object).paired }
  objects := object :: context.objects
  refs := Function.update context.refs object 1
  objectsNumber := context.objectsNumber + 1
  newObjects := context.newObjects + 1

/-- `ecma_ref_object`. -/
def ecmaRefObject (cpointer32Bit : Bool) (context : GcContext Object) (object : Object) :
    Except GcFault (GcContext Object) :=
  if context.refs object < ecmaObjectMaxRef cpointer32Bit then
    .ok { context with
      refs := Function.update context.refs object (context.refs object + 1) }
  else
    .error .refCountLimit

/-- `ecma_deref_object`. -/
def ecmaDerefObject (context : GcContext Object) (object : Object) :
    Except GcFault (GcContext Object) :=
  if 1 ≤ context.refs object then
    .ok { context with
      refs := Function.update context.refs object (context.refs object - 1) }
  else
    .error .notReferenced

/-- `ecma_gc_run`. -/
def ecmaGcRun (cpointer32Bit : Bool) (limit : ℕ) (context : GcContext Object) :
    Except GcFault (GcContext Object) := do
  let lists := moveRoots cpointer32Bit context.objects ⟨context.refs, [], []⟩
  let refs := markRoots cpointer32Bit context.graph limit lists.black lists.refs
  let lists ← markNonRoots cpointer32Bit context.graph limit (context.objects.length + 1)
    { lists with refs }
  sweep lists.black lists.whiteGray
    { context with refs := lists.refs, objects := lists.black, newObjects := 0 }

/-- `jmem_pressure_t`, as far as it does not stop the engine. -/
inductive JmemPressure where
  | low
  | high
  deriving DecidableEq

/-- `CONFIG_ECMA_GC_NEW_OBJECTS_FRACTION`. -/
def configEcmaGcNewObjectsFraction : ℕ := 16

/-- `ecma_free_unused_memory`. -/
def ecmaFreeUnusedMemory (cpointer32Bit : Bool) (limit : ℕ) (context : GcContext Object) :
    JmemPressure → Except GcFault (GcContext Object)
  | .low =>
      if context.objectsNumber < context.newObjects * configEcmaGcNewObjectsFraction then
        ecmaGcRun cpointer32Bit limit context
      else
        .ok context
  | .high => ecmaGcRun cpointer32Bit limit context

end Cmsframe
