import Cmsframe.Memory.Collector

/-!
# What the collector keeps

`ecma_gc_run` keeps the objects that are in use and no others. Marking is followed by the rules
for markers with weak references: every call of `ecma_gc_set_object_visited` finishes all the
objects it visits except for those it leaves for a later pass.
-/

namespace Cmsframe

open Marking

universe u

variable {Object : Type u}

theorem one_lt_ecmaObjectNonVisited (cpointer32Bit : Bool) :
    1 < ecmaObjectNonVisited cpointer32Bit := by
  cases cpointer32Bit <;> decide

/-- The objects a reference is about belong to the heap. -/
def Within (objects : List Object) : Reference Object → Prop
  | .strong target => target ∈ objects
  | .weak other target => other ∈ objects ∧ ∀ node, target = some node → node ∈ objects

/-- The references of the heap stay inside it. -/
def Contained (graph : Graph Object) (objects : List Object) : Prop :=
  ∀ owner ∈ objects, ∀ reference ∈ graph.references owner, Within objects reference

section Marker

variable (cpointer32Bit : Bool) (graph : Graph Object) (objects : List Object)

/-- The visited objects of the heap. -/
def visited (refs : RefCounts Object) : Set Object :=
  {object | object ∈ objects ∧ refs object < ecmaObjectNonVisited cpointer32Bit}

/-- The objects that were visited and gone through between two moments. -/
def finishedBy (before after : RefCounts Object) : Set Object :=
  {object | object ∈ objects ∧ ecmaObjectNonVisited cpointer32Bit ≤ before object ∧
    after object = 0}

/-- How marking changes the counts, besides what it visits. -/
structure Recolours (before after : RefCounts Object) : Prop where
  keeps : ∀ object, before object < ecmaObjectNonVisited cpointer32Bit →
    after object = before object
  fresh : ∀ object, ecmaObjectNonVisited cpointer32Bit ≤ before object →
    after object = before object ∨ after object ≤ 1

variable {cpointer32Bit graph objects}

/-- Calls of `ecma_gc_set_object_visited` between two moments. -/
structure Advances (cpointer32Bit : Bool) (graph : Graph Object) (objects : List Object)
    (before after : RefCounts Object) : Prop extends
    Recolours cpointer32Bit before after,
    Marks graph (visited cpointer32Bit objects before) (visited cpointer32Bit objects after)
      (finishedBy cpointer32Bit objects before after)

/-- The objects in use, from some of the objects on. -/
abbrev AllLive (graph : Graph Object) (roots marked : Set Object) : Prop :=
  ∀ object ∈ marked, Live graph roots object

variable {before middle after refs : RefCounts Object} {object : Object}

theorem Recolours.refl (refs : RefCounts Object) : Recolours cpointer32Bit refs refs where
  keeps _ _ := rfl
  fresh _ _ := .inl rfl

theorem Recolours.trans (first : Recolours cpointer32Bit before middle)
    (second : Recolours cpointer32Bit middle after) : Recolours cpointer32Bit before after where
  keeps object wasVisited := by
    have same := first.keeps object wasVisited
    rw [second.keeps object (by omega), same]
  fresh object wasWhite := by
    have small := one_lt_ecmaObjectNonVisited cpointer32Bit
    rcases first.fresh object wasWhite with same | isSmall
    · have later := second.fresh object (by omega)
      rwa [same] at later
    · right
      rw [second.keeps object (by omega)]
      exact isSmall

theorem finishedBy_self (cpointer32Bit : Bool) (objects : List Object) (refs : RefCounts Object) :
    finishedBy cpointer32Bit objects refs refs = ∅ := by
  have small := one_lt_ecmaObjectNonVisited cpointer32Bit
  ext object
  simp only [finishedBy, Set.mem_ofPred_eq, Set.mem_empty_iff_false, iff_false, not_and]
  intro _ isWhite isZero
  omega

theorem finishedBy_union (first : Recolours cpointer32Bit before middle)
    (second : Recolours cpointer32Bit middle after) :
    finishedBy cpointer32Bit objects before middle ∪
        finishedBy cpointer32Bit objects middle after =
      finishedBy cpointer32Bit objects before after := by
  have small := one_lt_ecmaObjectNonVisited cpointer32Bit
  ext object
  simp only [finishedBy, Set.mem_union, Set.mem_ofPred_eq]
  constructor
  · rintro (⟨mem, wasWhite, isZero⟩ | ⟨mem, isWhite, isZero⟩)
    · exact ⟨mem, wasWhite, by rw [second.keeps object (by omega), isZero]⟩
    · refine ⟨mem, ?_, isZero⟩
      by_contra wasVisited
      have same := first.keeps object (by omega)
      omega
  · rintro ⟨mem, wasWhite, isZero⟩
    by_cases isVisited : middle object < ecmaObjectNonVisited cpointer32Bit
    · exact .inl ⟨mem, wasWhite, by rw [← second.keeps object isVisited, isZero]⟩
    · exact .inr ⟨mem, by omega, isZero⟩

theorem Advances.refl (refs : RefCounts Object) :
    Advances cpointer32Bit graph objects refs refs where
  toRecolours := Recolours.refl refs
  toMarks := by
    rw [finishedBy_self]
    exact Marks.refl _

theorem Advances.trans (first : Advances cpointer32Bit graph objects before middle)
    (second : Advances cpointer32Bit graph objects middle after) :
    Advances cpointer32Bit graph objects before after where
  toRecolours := first.toRecolours.trans second.toRecolours
  toMarks := by
    rw [← finishedBy_union first.toRecolours second.toRecolours]
    exact first.toMarks.trans second.toMarks

/-- What is known of a function that visits objects of the heap. -/
structure Visits (cpointer32Bit : Bool) (graph : Graph Object) (objects : List Object)
    (visit : RefCounts Object → Object → RefCounts Object) : Prop where
  advances : ∀ refs, ∀ object ∈ objects,
    Advances cpointer32Bit graph objects refs (visit refs object)
  isVisited : ∀ refs, ∀ object ∈ objects,
    object ∈ visited cpointer32Bit objects (visit refs object)
  live : ∀ (roots : Set Object) refs, ∀ object ∈ objects, Live graph roots object →
    AllLive graph roots (visited cpointer32Bit objects refs) →
      AllLive graph roots (visited cpointer32Bit objects (visit refs object))

variable {visit : RefCounts Object → Object → RefCounts Object}
  {references : List (Reference Object)}

theorem ecmaGcIsObjectVisited_iff (inHeap : object ∈ objects) :
    ecmaGcIsObjectVisited cpointer32Bit refs object = true ↔
      object ∈ visited cpointer32Bit objects refs := by
  simp [ecmaGcIsObjectVisited, visited, inHeap]

/-- Going through references, if every one of them is visited as it should be. -/
theorem Visits.scans (visits : Visits cpointer32Bit graph objects visit)
    (within : ∀ reference ∈ references, Within objects reference) (refs : RefCounts Object) :
    Recolours cpointer32Bit refs (markReferences cpointer32Bit visit references refs) ∧
      Scans graph (visited cpointer32Bit objects refs)
        (visited cpointer32Bit objects (markReferences cpointer32Bit visit references refs))
        (finishedBy cpointer32Bit objects refs
          (markReferences cpointer32Bit visit references refs)) references := by
  induction references generalizing refs with
  | nil =>
      refine ⟨Recolours.refl refs, ?_⟩
      rw [markReferences, finishedBy_self]
      exact Scans.nil _
  | cons reference references ih =>
      have ih := ih fun other mem => within other (List.mem_cons_of_mem reference mem)
      have here := within reference List.mem_cons_self
      cases reference with
      | strong target =>
          have first := visits.advances refs target here
          rcases ih (visit refs target) with ⟨recolours, scans⟩
          refine ⟨first.toRecolours.trans recolours, ?_⟩
          rw [markReferences, ← finishedBy_union first.toRecolours recolours]
          exact scans.strongCons first.toMarks (visits.isVisited refs target here)
      | weak other target =>
          cases target with
          | none =>
              rcases ih refs with ⟨recolours, scans⟩
              refine ⟨recolours, ?_⟩
              have weakCons := scans.weakCons other none (Marks.refl _)
                fun node isTarget => by cases isTarget
              rwa [Set.empty_union] at weakCons
          | some target =>
              rcases here with ⟨otherInHeap, targetInHeap⟩
              rw [markReferences]
              by_cases otherVisited : ecmaGcIsObjectVisited cpointer32Bit refs other = true
              · have inHeap := targetInHeap target rfl
                have first := visits.advances refs target inHeap
                rcases ih (visit refs target) with ⟨recolours, scans⟩
                rw [if_pos otherVisited]
                refine ⟨first.toRecolours.trans recolours, ?_⟩
                rw [← finishedBy_union first.toRecolours recolours]
                apply scans.weakCons _ _ first.toMarks
                rintro _ ⟨rfl⟩ _
                exact visits.isVisited refs target inHeap
              · rcases ih refs with ⟨recolours, scans⟩
                rw [if_neg otherVisited]
                refine ⟨recolours, ?_⟩
                have weakCons := scans.weakCons other (some target)
                  (Marks.refl _) fun node _ isMarked =>
                    absurd ((ecmaGcIsObjectVisited_iff otherInHeap).mpr isMarked) otherVisited
                rwa [Set.empty_union] at weakCons

/-- Going through references of an object in use visits objects in use only. -/
theorem Visits.markReferences_live (visits : Visits cpointer32Bit graph objects visit)
    {roots : Set Object} {owner : Object} (ownerLive : Live graph roots owner)
    (within : ∀ reference ∈ references, Within objects reference)
    (subset : references ⊆ graph.references owner) (refs : RefCounts Object)
    (allLive : AllLive graph roots (visited cpointer32Bit objects refs)) :
    AllLive graph roots
      (visited cpointer32Bit objects (markReferences cpointer32Bit visit references refs)) := by
  induction references generalizing refs with
  | nil => exact allLive
  | cons reference references ih =>
      have ih := ih (fun other mem => within other (List.mem_cons_of_mem reference mem))
        fun other mem => subset (List.mem_cons_of_mem reference mem)
      have here := within reference List.mem_cons_self
      have refers := subset List.mem_cons_self
      cases reference with
      | strong target =>
          exact ih _ (visits.live roots refs target here (.strong ownerLive refers) allLive)
      | weak other target =>
          cases target with
          | none => exact ih refs allLive
          | some target =>
              rcases here with ⟨otherInHeap, targetInHeap⟩
              rw [markReferences]
              by_cases otherVisited : ecmaGcIsObjectVisited cpointer32Bit refs other = true
              · rw [if_pos otherVisited]
                have otherLive := allLive other
                  ((ecmaGcIsObjectVisited_iff otherInHeap).mp otherVisited)
                exact ih _ (visits.live roots refs target (targetInHeap target rfl)
                  (.weak ownerLive otherLive refers) allLive)
              · rw [if_neg otherVisited]
                exact ih refs allLive

variable [DecidableEq Object]

theorem visited_update {count : ℕ} (small : count ≤ 1) (inHeap : object ∈ objects) :
    visited cpointer32Bit objects (Function.update refs object count) =
      insert object (visited cpointer32Bit objects refs) := by
  have large := one_lt_ecmaObjectNonVisited cpointer32Bit
  ext other
  by_cases same : other = object
  · subst same
    simp only [visited, Set.mem_ofPred_eq, Function.update_self, Set.mem_insert_iff, true_or,
      iff_true]
    exact ⟨inHeap, by omega⟩
  · simp [visited, same]

theorem recolours_update {count : ℕ} (small : count ≤ 1)
    (isWhite : ecmaObjectNonVisited cpointer32Bit ≤ refs object) :
    Recolours cpointer32Bit refs (Function.update refs object count) where
  keeps other wasVisited := by
    have different : other ≠ object := by
      rintro rfl
      omega
    exact Function.update_of_ne different count refs
  fresh other _ := by
    by_cases same : other = object
    · subst same
      right
      rwa [Function.update_self]
    · exact .inl (Function.update_of_ne same count refs)

/-- An object that is marked and gone through is finished. -/
theorem finishedBy_visit (inHeap : object ∈ objects)
    (isWhite : ecmaObjectNonVisited cpointer32Bit ≤ refs object)
    (later : Recolours cpointer32Bit (Function.update refs object 0) after) :
    finishedBy cpointer32Bit objects refs after =
      insert object (finishedBy cpointer32Bit objects (Function.update refs object 0) after) := by
  have large := one_lt_ecmaObjectNonVisited cpointer32Bit
  ext other
  by_cases same : other = object
  · subst same
    have isZero : after other = 0 := by
      rw [later.keeps other (by rw [Function.update_self]; omega), Function.update_self]
    simp only [finishedBy, Set.mem_ofPred_eq, Set.mem_insert_iff, true_or, iff_true]
    exact ⟨inHeap, isWhite, isZero⟩
  · simp [finishedBy, same]

/-- An object is left for later. -/
theorem advances_postpone (inHeap : object ∈ objects)
    (isWhite : ecmaObjectNonVisited cpointer32Bit ≤ refs object) :
    Advances cpointer32Bit graph objects refs (Function.update refs object 1) where
  toRecolours := recolours_update le_rfl isWhite
  toMarks := by
    have none : finishedBy cpointer32Bit objects refs (Function.update refs object 1) = ∅ := by
      rw [← Set.subset_empty_iff, ← finishedBy_self cpointer32Bit objects refs]
      rintro other ⟨mem, wasWhite, isZero⟩
      by_cases same : other = object
      · subst same
        simp at isZero
      · rw [Function.update_of_ne same] at isZero
        exact ⟨mem, wasWhite, isZero⟩
    rw [none, visited_update le_rfl inHeap]
    exact {
      grows := Set.subset_insert _ _
      marked := Set.empty_subset _
      strong := fun isFinished => isFinished.elim
      weak := fun isFinished => isFinished.elim }

/-- `ecma_gc_set_object_visited` visits the objects that it should, at every recursion limit. -/
theorem visits_ecmaGcSetObjectVisited (contained : Contained graph objects) (limit : ℕ) :
    Visits cpointer32Bit graph objects (ecmaGcSetObjectVisited cpointer32Bit graph limit) := by
  induction limit with
  | zero =>
      constructor
      · intro refs object inHeap
        rw [ecmaGcSetObjectVisited]
        split_ifs with isWhite
        · exact advances_postpone inHeap isWhite
        · exact Advances.refl refs
      · intro refs object inHeap
        rw [ecmaGcSetObjectVisited]
        split_ifs with isWhite
        · rw [visited_update le_rfl inHeap]
          exact Set.mem_insert _ _
        · exact ⟨inHeap, by omega⟩
      · intro roots refs object inHeap live allLive
        rw [ecmaGcSetObjectVisited]
        split_ifs with isWhite
        · rw [visited_update le_rfl inHeap]
          rintro other (rfl | wasVisited)
          · exact live
          · exact allLive other wasVisited
        · exact allLive
  | succ limit ih =>
      have within : ∀ object ∈ objects, ∀ reference ∈ graph.references object,
          Within objects reference := contained
      constructor
      · intro refs object inHeap
        rw [ecmaGcSetObjectVisited]
        split_ifs with isWhite
        · rcases ih.scans (within object inHeap) (Function.update refs object 0) with
            ⟨recolours, scans⟩
          refine ⟨(recolours_update (Nat.zero_le 1) isWhite).trans recolours, ?_⟩
          rw [finishedBy_visit inHeap isWhite recolours]
          rw [visited_update (Nat.zero_le 1) inHeap] at scans
          exact scans.visit
        · exact Advances.refl refs
      · intro refs object inHeap
        rw [ecmaGcSetObjectVisited]
        split_ifs with isWhite
        · rcases ih.scans (within object inHeap) (Function.update refs object 0) with
            ⟨recolours, scans⟩
          rw [visited_update (Nat.zero_le 1) inHeap] at scans
          exact scans.grows (Set.mem_insert _ _)
        · exact ⟨inHeap, by omega⟩
      · intro roots refs object inHeap live allLive
        rw [ecmaGcSetObjectVisited]
        split_ifs with isWhite
        · apply ih.markReferences_live live (within object inHeap) (List.Subset.refl _)
          rw [visited_update (Nat.zero_le 1) inHeap]
          rintro other (rfl | wasVisited)
          · exact live
          · exact allLive other wasVisited
        · exact allLive

theorem ecmaGcMark_of_pos {limit : ℕ} (positive : 0 < limit) (refs : RefCounts Object) :
    ecmaGcMark cpointer32Bit graph limit refs object =
      markReferences cpointer32Bit (ecmaGcSetObjectVisited cpointer32Bit graph limit)
        (graph.references object) refs := by
  rw [ecmaGcMark, if_neg positive.ne']

/-- `ecma_gc_mark` goes through the references of an object. -/
theorem scans_ecmaGcMark (cpointer32Bit : Bool) (contained : Contained graph objects) {limit : ℕ}
    (positive : 0 < limit) (inHeap : object ∈ objects) (refs : RefCounts Object) :
    Recolours cpointer32Bit refs (ecmaGcMark cpointer32Bit graph limit refs object) ∧
      Scans graph (visited cpointer32Bit objects refs)
        (visited cpointer32Bit objects (ecmaGcMark cpointer32Bit graph limit refs object))
        (finishedBy cpointer32Bit objects refs
          (ecmaGcMark cpointer32Bit graph limit refs object)) (graph.references object) := by
  rw [ecmaGcMark_of_pos positive]
  exact (visits_ecmaGcSetObjectVisited contained limit).scans (contained object inHeap) refs

end Marker

/-- What holds of the heap between two runs of the collector. -/
structure GcContext.WellFormed (cpointer32Bit : Bool) (context : GcContext Object) : Prop where
  nodup : context.objects.Nodup
  counted : ∀ object ∈ context.objects,
    context.refs object ≤ ecmaObjectMaxRef cpointer32Bit
  number : context.objectsNumber = context.objects.length
  contained : Contained context.graph context.objects

/-- The objects that are referenced from outside the heap. -/
def GcContext.roots (context : GcContext Object) : Set Object :=
  {object | object ∈ context.objects ∧ 1 ≤ context.refs object}

/-- The objects in use. -/
abbrev GcContext.InUse (context : GcContext Object) : Object → Prop :=
  Live context.graph context.roots

section Run

variable {cpointer32Bit : Bool} {context : GcContext Object} {limit : ℕ}
variable {refs after : RefCounts Object} {finished : Set Object} {object : Object}

theorem GcContext.WellFormed.lt_nonVisited (wellFormed : context.WellFormed cpointer32Bit)
    (inHeap : object ∈ context.objects) :
    context.refs object < ecmaObjectNonVisited cpointer32Bit := by
  have large := one_lt_ecmaObjectNonVisited cpointer32Bit
  have bounded := wellFormed.counted object inHeap
  rw [ecmaObjectMaxRef] at bounded
  omega

/-- Objects in use belong to the heap. -/
theorem GcContext.WellFormed.inHeap (wellFormed : context.WellFormed cpointer32Bit)
    (inUse : context.InUse object) : object ∈ context.objects := by
  induction inUse with
  | root isRoot => exact isRoot.1
  | strong _ refers ih => exact wellFormed.contained _ ih _ refers
  | weak _ _ refers ih _ => exact (wellFormed.contained _ ih _ refers).2 _ rfl

/-- What holds while the marker runs. The current objects have been taken up. -/
structure GcContext.Progress (cpointer32Bit : Bool) (context : GcContext Object)
    (refs : RefCounts Object) (finished current : Set Object) : Prop where
  closed : Closed context.graph (visited cpointer32Bit context.objects refs) finished
  roots : ∀ object ∈ context.roots, refs object = context.refs object
  others : ∀ object ∈ context.objects, object ∉ context.roots →
    refs object = ecmaObjectNonVisited cpointer32Bit ∨ refs object ≤ 1
  isFinished : ∀ object ∈ context.objects, object ∉ context.roots → refs object = 0 →
    object ∉ current → object ∈ finished
  live : AllLive context.graph context.roots (visited cpointer32Bit context.objects refs)

/-- The lists while a pass goes over `rest`: the black objects are visited, and those that are
no roots are gone through. -/
structure GcContext.Lists (cpointer32Bit : Bool) (context : GcContext Object)
    (lists : GcLists Object) (rest : List Object) : Prop where
  perm : (lists.black ++ (lists.whiteGray ++ rest)).Perm context.objects
  white : ∀ object ∈ lists.whiteGray ++ rest, object ∉ context.roots
  black : ∀ object ∈ lists.black,
    object ∈ visited cpointer32Bit context.objects lists.refs ∧
      (object ∉ context.roots → lists.refs object = 0)

theorem GcContext.Lists.inHeap {lists : GcLists Object} {rest : List Object}
    (holds : context.Lists cpointer32Bit lists rest) (mem : object ∈ rest) :
    object ∈ context.objects :=
  holds.perm.subset (List.mem_append_right _ (List.mem_append_right _ mem))

/-- The object at the front becomes black. -/
theorem GcContext.Lists.blacken {lists : GcLists Object} {rest : List Object}
    (holds : context.Lists cpointer32Bit lists (object :: rest))
    (keeps : ∀ other ∈ lists.black, after other = lists.refs other)
    (isVisited : object ∈ visited cpointer32Bit context.objects after)
    (isZero : after object = 0) :
    context.Lists cpointer32Bit
      { lists with refs := after, black := lists.black ++ [object] } rest where
  perm := by
    refine List.Perm.trans ?_ holds.perm
    simp only [List.append_assoc, List.singleton_append]
    exact List.Perm.append_left _ List.perm_middle.symm
  white other mem := holds.white other (by
    rcases List.mem_append.mp mem with isWhite | inRest
    · exact List.mem_append_left _ isWhite
    · exact List.mem_append_right _ (List.mem_cons_of_mem object inRest))
  black := by
    intro other mem
    rcases List.mem_append.mp mem with inBlack | isNew
    · rcases holds.black other inBlack with ⟨⟨inHeap, wasVisited⟩, wasZero⟩
      have same := keeps other inBlack
      exact ⟨⟨inHeap, same.trans_lt wasVisited⟩, fun notRoot => same.trans (wasZero notRoot)⟩
    · rw [List.mem_singleton] at isNew
      subst isNew
      exact ⟨isVisited, fun _ => isZero⟩

theorem GcContext.Lists.keepWhite {lists : GcLists Object} {rest : List Object}
    (holds : context.Lists cpointer32Bit lists (object :: rest)) :
    context.Lists cpointer32Bit
      { lists with whiteGray := lists.whiteGray ++ [object] } rest where
  perm := by
    refine List.Perm.trans ?_ holds.perm
    simp
  white other mem := holds.white other (by simpa using mem)
  black := holds.black

/-- When the passes are over, the black objects are the ones in use. -/
theorem GcContext.Progress.mem_black_iff {lists : GcLists Object}
    (wellFormed : context.WellFormed cpointer32Bit)
    (progress : context.Progress cpointer32Bit lists.refs finished ∅)
    (holds : context.Lists cpointer32Bit lists []) (rootsFinished : context.roots ⊆ finished)
    (white : ∀ object ∈ lists.whiteGray,
      object ∉ visited cpointer32Bit context.objects lists.refs) :
    object ∈ lists.black ↔ context.InUse object := by
  constructor
  · intro inBlack
    exact progress.live object (holds.black object inBlack).1
  · intro inUse
    have inLists := holds.perm.symm.subset (wellFormed.inHeap inUse)
    rw [List.append_nil] at inLists
    have subset : visited cpointer32Bit context.objects lists.refs ⊆ finished := by
      intro other isVisited
      have inLists := holds.perm.symm.subset isVisited.1
      rw [List.append_nil] at inLists
      have inBlack := (List.mem_append.mp inLists).resolve_right fun mem =>
        white other mem isVisited
      by_cases isRoot : other ∈ context.roots
      · exact rootsFinished isRoot
      · exact progress.isFinished other isVisited.1 isRoot
          ((holds.black other inBlack).2 isRoot) id
    have closed := progress.closed
    rw [Set.Subset.antisymm subset progress.closed.subset] at closed
    exact (List.mem_append.mp inLists).resolve_right fun mem =>
      white object mem (progress.closed.subset (closed.live rootsFinished inUse))

/-- The lists when the roots are moved and marked. -/
theorem GcContext.Lists.start (wellFormed : context.WellFormed cpointer32Bit)
    (kept : ∀ object ∈ context.roots, refs object = context.refs object) :
    context.Lists cpointer32Bit
      ⟨refs, context.objects.filter fun object => 1 ≤ context.refs object,
        context.objects.filter fun object => context.refs object = 0⟩ [] where
  perm := by
    have perm := List.filter_append_perm (fun object => decide (1 ≤ context.refs object))
      context.objects
    rw [List.append_nil]
    refine List.Perm.trans (List.Perm.append_left _ (List.Perm.of_eq ?_)) perm
    apply List.filter_congr
    intro object _
    rw [Bool.eq_iff_iff]
    simp
  white := by
    intro object mem isRoot
    rw [List.append_nil, List.mem_filter, decide_eq_true_eq] at mem
    have isCounted := isRoot.2
    omega
  black := by
    intro object mem
    rw [List.mem_filter, decide_eq_true_eq] at mem
    have isRoot : object ∈ context.roots := mem
    refine ⟨⟨isRoot.1, ?_⟩, fun notRoot => absurd isRoot notRoot⟩
    exact (kept object isRoot).trans_lt (wellFormed.lt_nonVisited isRoot.1)

variable [DecidableEq Object]

/-- Going through an object that is visited already. -/
theorem GcContext.Progress.mark (wellFormed : context.WellFormed cpointer32Bit)
    {current : Set Object} (progress : context.Progress cpointer32Bit refs finished current)
    (isVisited : object ∈ visited cpointer32Bit context.objects refs) (only : current ⊆ {object})
    (positive : 0 < limit) :
    context.Progress cpointer32Bit (ecmaGcMark cpointer32Bit context.graph limit refs object)
      (insert object (finished ∪ finishedBy cpointer32Bit context.objects refs
        (ecmaGcMark cpointer32Bit context.graph limit refs object))) ∅ := by
  have inHeap := isVisited.1
  rcases scans_ecmaGcMark cpointer32Bit wellFormed.contained positive inHeap refs
    with ⟨recolours, scans⟩
  refine ⟨progress.closed.scan isVisited scans, ?_, ?_, ?_, ?_⟩
  · intro other isRoot
    have same := progress.roots other isRoot
    have small := wellFormed.lt_nonVisited isRoot.1
    rw [recolours.keeps other (by omega), same]
  · intro other otherInHeap notRoot
    rcases progress.others other otherInHeap notRoot with isWhite | isSmall
    · have fresh := recolours.fresh other isWhite.ge
      rwa [isWhite] at fresh
    · have large := one_lt_ecmaObjectNonVisited cpointer32Bit
      rw [recolours.keeps other (by omega)]
      exact .inr isSmall
  · intro other otherInHeap notRoot isZero _
    by_cases same : other = object
    · exact .inl same
    · right
      by_cases wasVisited : refs other < ecmaObjectNonVisited cpointer32Bit
      · left
        rw [recolours.keeps other wasVisited] at isZero
        exact progress.isFinished other otherInHeap notRoot isZero fun isCurrent =>
          same (only isCurrent)
      · exact .inr ⟨otherInHeap, by omega, isZero⟩
  · rw [ecmaGcMark_of_pos positive]
    exact (visits_ecmaGcSetObjectVisited wellFormed.contained limit).markReferences_live
      (progress.live object isVisited) (wellFormed.contained object inHeap)
      (List.Subset.refl _) refs progress.live

theorem GcContext.Progress.markRoots (wellFormed : context.WellFormed cpointer32Bit)
    (progress : context.Progress cpointer32Bit refs finished ∅) {roots : List Object}
    (areRoots : ∀ object ∈ roots, object ∈ context.roots) (positive : 0 < limit) :
    ∃ later, finished ⊆ later ∧ (∀ object ∈ roots, object ∈ later) ∧
      context.Progress cpointer32Bit
        (Cmsframe.markRoots cpointer32Bit context.graph limit roots refs) later ∅ := by
  induction roots generalizing refs finished with
  | nil => exact ⟨finished, subset_rfl, by simp, progress⟩
  | cons root roots ih =>
      have isRoot := areRoots root List.mem_cons_self
      have isVisited : root ∈ visited cpointer32Bit context.objects refs := by
        refine ⟨isRoot.1, ?_⟩
        rw [progress.roots root isRoot]
        exact wellFormed.lt_nonVisited isRoot.1
      rcases ih (progress.mark wellFormed isVisited (Set.empty_subset _) positive)
        (fun other mem => areRoots other (List.mem_cons_of_mem root mem)) with
        ⟨later, grows, rootsFinished, progress⟩
      refine ⟨later, fun other mem => grows (.inr (.inl mem)), ?_, progress⟩
      intro other mem
      rcases List.mem_cons.mp mem with rfl | inRest
      · exact grows (Set.mem_insert other _)
      · exact rootsFinished other inRest

/-- The lists after the roots are moved. -/
theorem moveRoots_eq {objects : List Object} (nodup : objects.Nodup) (lists : GcLists Object) :
    moveRoots cpointer32Bit objects lists =
      ⟨fun object => if object ∈ objects ∧ lists.refs object = 0 then
          ecmaObjectNonVisited cpointer32Bit else lists.refs object,
        lists.black ++ objects.filter fun object => 1 ≤ lists.refs object,
        lists.whiteGray ++ objects.filter fun object => lists.refs object = 0⟩ := by
  induction objects generalizing lists with
  | nil => simp [moveRoots]
  | cons object objects ih =>
      rcases List.nodup_cons.mp nodup with ⟨notMem, nodup⟩
      rw [moveRoots]
      split_ifs with isRoot
      · rw [ih nodup]
        have notZero : lists.refs object ≠ 0 := by omega
        congr 1
        · funext other
          by_cases same : other = object
          · simp [same, notZero]
          · simp [same]
        · simp [isRoot]
        · simp [notZero]
      · have isZero : lists.refs object = 0 := by omega
        have unchanged : ∀ other ∈ objects, Function.update lists.refs object
            (ecmaObjectNonVisited cpointer32Bit) other = lists.refs other := by
          intro other mem
          apply Function.update_of_ne
          rintro rfl
          exact notMem mem
        rw [ih nodup]
        congr 1
        · funext other
          by_cases same : other = object
          · subst same
            simp [notMem, isZero]
          · simp [same]
        · rw [List.filter_cons_of_neg (by simp [isZero])]
          congr 1
          apply List.filter_congr
          intro other mem
          simp only [unchanged other mem]
        · rw [List.filter_cons_of_pos (by simp [isZero]), List.append_assoc,
            List.singleton_append]
          congr 2
          apply List.filter_congr
          intro other mem
          simp only [unchanged other mem]

/-- An object that was left for later is taken up. -/
theorem GcContext.Progress.resume (progress : context.Progress cpointer32Bit refs finished ∅)
    (isVisited : object ∈ visited cpointer32Bit context.objects refs)
    (notRoot : object ∉ context.roots) :
    context.Progress cpointer32Bit (Function.update refs object 0) finished {object} := by
  have same : visited cpointer32Bit context.objects (Function.update refs object 0) =
      visited cpointer32Bit context.objects refs := by
    rw [visited_update (Nat.zero_le 1) isVisited.1, Set.insert_eq_of_mem isVisited]
  refine ⟨same ▸ progress.closed, ?_, ?_, ?_, same ▸ progress.live⟩
  · intro other isRoot
    rw [Function.update_of_ne (by rintro rfl; exact notRoot isRoot)]
    exact progress.roots other isRoot
  · intro other inHeap otherNotRoot
    by_cases isObject : other = object
    · subst isObject
      simp
    · rw [Function.update_of_ne isObject]
      exact progress.others other inHeap otherNotRoot
  · intro other inHeap otherNotRoot isZero notCurrent
    rw [Function.update_of_ne notCurrent] at isZero
    exact progress.isFinished other inHeap otherNotRoot isZero id

/-- A pass that has marked something says so. -/
theorem scanWhiteGray_true (graph : Graph Object) (rest : List Object) (lists : GcLists Object) :
    (scanWhiteGray cpointer32Bit graph limit rest lists true).2 = true := by
  induction rest generalizing lists with
  | nil => rfl
  | cons object rest ih =>
      rw [scanWhiteGray]
      split_ifs <;> exact ih _

/-- One pass: it goes on with the objects that are taken up, until a pass finds none. -/
theorem GcContext.Progress.scanWhiteGray (wellFormed : context.WellFormed cpointer32Bit)
    (lists : GcLists Object) {rest : List Object}
    (progress : context.Progress cpointer32Bit lists.refs finished ∅)
    (holds : context.Lists cpointer32Bit lists rest) (positive : 0 < limit)
    (markedAnything : Bool) :
    let result := Cmsframe.scanWhiteGray cpointer32Bit context.graph limit rest lists markedAnything
    (∃ later, finished ⊆ later ∧ context.Progress cpointer32Bit result.1.refs later ∅) ∧
      context.Lists cpointer32Bit result.1 [] ∧
      (result.2 = true → markedAnything = true ∨
        result.1.whiteGray.length < lists.whiteGray.length + rest.length) ∧
      result.1.whiteGray.length ≤ lists.whiteGray.length + rest.length ∧
      (result.2 = false → result.1.refs = lists.refs ∧ ∀ object ∈ result.1.whiteGray,
        object ∈ lists.whiteGray ∨ object ∉ visited cpointer32Bit context.objects lists.refs) := by
  induction rest generalizing lists finished markedAnything with
  | nil =>
      refine ⟨⟨finished, subset_rfl, progress⟩, holds, .inl, le_rfl, fun _ => ⟨rfl, ?_⟩⟩
      exact fun object mem => .inl mem
  | cons object rest ih =>
      have inHeap : object ∈ context.objects := holds.inHeap List.mem_cons_self
      have notRoot := holds.white object (List.mem_append_right _ List.mem_cons_self)
      rw [Cmsframe.scanWhiteGray]
      by_cases isVisited : ecmaGcIsObjectVisited cpointer32Bit lists.refs object = true
      · have visitedNow := (ecmaGcIsObjectVisited_iff inHeap).mp isVisited
        rw [if_pos isVisited, if_neg positive.ne']
        by_cases isPending : 1 ≤ lists.refs object
        · rw [if_pos isPending]
          have resumed := progress.resume visitedNow notRoot
          have isVisited : object ∈ visited cpointer32Bit context.objects
              (Function.update lists.refs object 0) := by
            rw [visited_update (Nat.zero_le 1) inHeap]
            exact Set.mem_insert _ _
          have marked := resumed.mark wellFormed isVisited subset_rfl positive
          rcases scans_ecmaGcMark cpointer32Bit wellFormed.contained positive
            inHeap (Function.update lists.refs object 0) with ⟨recolours, scans⟩
          have isZero := recolours.keeps object isVisited.2
          rw [Function.update_self] at isZero
          have distinct : object ∉ lists.black := by
            have nodup := holds.perm.nodup_iff.mpr wellFormed.nodup
            intro inBlack
            exact (List.nodup_append.mp nodup).2.2 object inBlack object
              (List.mem_append_right _ List.mem_cons_self) rfl
          have keeps : ∀ other ∈ lists.black, ecmaGcMark cpointer32Bit context.graph limit
              (Function.update lists.refs object 0) object other = lists.refs other := by
            intro other inBlack
            have different : other ≠ object := by
              rintro rfl
              exact distinct inBlack
            have same := recolours.keeps other
            rw [Function.update_of_ne different] at same
            exact same (holds.black other inBlack).1.2
          rcases ih _ marked (holds.blacken keeps (scans.grows isVisited) isZero) true with
            ⟨⟨later, grows, progress⟩, holds, _, shorter, unmarked⟩
          refine ⟨⟨later, ?_, progress⟩, holds, fun _ => .inr ?_, ?_, ?_⟩
          · exact fun other mem => grows (.inr (.inl mem))
          · simp only [List.length_cons] at shorter ⊢
            omega
          · simp only [List.length_cons] at shorter ⊢
            omega
          · intro isFalse
            rw [scanWhiteGray_true] at isFalse
            cases isFalse
        · rw [if_neg isPending]
          rcases ih { lists with black := lists.black ++ [object] } progress
            (holds.blacken (fun _ _ => rfl) visitedNow (by omega)) markedAnything with
            ⟨later, holds, marks, shorter, unmarked⟩
          simp only [List.length_cons] at *
          exact ⟨later, holds, fun isTrue => (marks isTrue).imp_right fun _ => by omega, by omega,
            unmarked⟩
      · rw [if_neg isVisited]
        rcases ih { lists with whiteGray := lists.whiteGray ++ [object] } progress
          holds.keepWhite markedAnything with ⟨later, holds, marks, shorter, unmarked⟩
        simp only [List.length_append, List.length_cons, List.length_nil] at *
        refine ⟨later, holds, fun isTrue => (marks isTrue).imp_right fun _ => by omega, by omega,
          fun isFalse => ⟨(unmarked isFalse).1, fun other mem => ?_⟩⟩
        rcases (unmarked isFalse).2 other mem with inWhite | isWhite
        · rcases List.mem_append.mp inWhite with wasWhite | isObject
          · exact .inl wasWhite
          · rw [List.mem_singleton] at isObject
            subst isObject
            right
            rwa [← ecmaGcIsObjectVisited_iff inHeap]
        · exact .inr isWhite

/-- The passes end, and they leave the objects that were not visited. -/
theorem GcContext.Progress.markNonRoots (wellFormed : context.WellFormed cpointer32Bit)
    {lists : GcLists Object} (progress : context.Progress cpointer32Bit lists.refs finished ∅)
    (holds : context.Lists cpointer32Bit lists []) (positive : 0 < limit) {fuel : ℕ}
    (enough : lists.whiteGray.length < fuel) :
    ∃ result later, Cmsframe.markNonRoots cpointer32Bit context.graph limit fuel lists = .ok result ∧
      finished ⊆ later ∧ context.Progress cpointer32Bit result.refs later ∅ ∧
      context.Lists cpointer32Bit result [] ∧
      ∀ object ∈ result.whiteGray, object ∉ visited cpointer32Bit context.objects result.refs := by
  induction fuel generalizing lists finished with
  | zero => omega
  | succ fuel ih =>
      have again : context.Lists cpointer32Bit { lists with whiteGray := [] } lists.whiteGray :=
        ⟨by simpa using holds.perm, by simpa using holds.white, holds.black⟩
      rcases GcContext.Progress.scanWhiteGray wellFormed { lists with whiteGray := [] }
        progress again positive false with ⟨⟨later, grows, progress⟩, holds, marks, _, unmarked⟩
      rw [Cmsframe.markNonRoots]
      by_cases isTrue : (Cmsframe.scanWhiteGray cpointer32Bit context.graph limit
          lists.whiteGray { lists with whiteGray := [] } false).2 = true
      · simp only [isTrue, if_true]
        have shorter := (marks isTrue).resolve_left Bool.false_ne_true
        simp only [List.length_nil, Nat.zero_add] at shorter
        rcases ih progress holds (by omega) with ⟨result, last, returns, growsAgain, rest⟩
        exact ⟨result, last, returns, grows.trans growsAgain, rest⟩
      · simp only [isTrue, if_false, Bool.false_eq_true]
        rcases unmarked (Bool.eq_false_iff.mpr isTrue) with ⟨same, white⟩
        refine ⟨_, later, rfl, grows, progress, holds, fun object mem => ?_⟩
        rw [same]
        exact (white object mem).resolve_left (List.not_mem_nil)

/-- What is left of the references of an object after others are freed. -/
theorem references_foldl_removeObject (freed : List Object) (graph : Graph Object)
    {owner : Object} (isKept : owner ∉ freed) :
    (freed.foldl removeObject graph).references owner =
      (graph.references owner).filter fun reference =>
        freed.all fun object => !isEntryOf object reference := by
  induction freed generalizing graph with
  | nil => exact (List.filter_eq_self.mpr fun _ _ => rfl).symm
  | cons object freed ih =>
      have different : owner ≠ object := by
        rintro rfl
        exact isKept List.mem_cons_self
      rw [List.foldl_cons, ih _ fun mem => isKept (List.mem_cons_of_mem object mem)]
      simp only [removeObject, if_neg different, List.filter_filter, List.all_cons]
      congr 1
      funext reference
      exact Bool.and_comm _ _

/-- Sweeping finds the other object of every entry that it removes. -/
theorem sweep_eq {kept freed : List Object} (context : GcContext Object)
    (nodup : (kept ++ freed).Nodup)
    (within : ∀ owner ∈ kept ++ freed,
      (context.graph.references owner).all (entryWithin (kept ++ freed)) = true) :
    sweep kept freed context =
      .ok { context with
        graph := freed.foldl removeObject context.graph
        objectsNumber := context.objectsNumber - freed.length } := by
  induction freed generalizing context with
  | nil => rfl
  | cons object freed ih =>
      rw [sweep, ecmaGcFreeObject, if_pos (within object (by simp))]
      simp only
      have nodup' : (kept ++ freed).Nodup :=
        nodup.sublist (List.Sublist.append_left (List.sublist_cons_self object freed) kept)
      have notMem : object ∉ kept ++ freed := by
        have middle : (kept ++ object :: freed).Perm (object :: (kept ++ freed)) := List.perm_middle
        have perm := middle.nodup_iff.mp nodup
        exact (List.nodup_cons.mp perm).1
      rw [ih _ nodup']
      · rw [List.foldl_cons, List.length_cons, Nat.sub_sub, Nat.add_comm 1]
      · intro owner mem
        have different : owner ≠ object := by
          rintro rfl
          exact notMem mem
        rw [List.all_eq_true]
        intro reference isLeft
        simp only [removeObject, if_neg different, List.mem_filter] at isLeft
        have here := List.all_eq_true.mp (within owner (by
          rcases List.mem_append.mp mem with isKept | isFreed
          · exact List.mem_append_left _ isKept
          · exact List.mem_append_right _ (List.mem_cons_of_mem object isFreed))) reference isLeft.1
        cases reference with
        | strong target => rfl
        | weak other target =>
            have otherDifferent : other ≠ object := by simpa [isEntryOf] using isLeft.2
            simpa [entryWithin, otherDifferent] using here

/-- The references that stay are those whose other object stays. -/
theorem filter_entryWithin {kept freed : List Object} {references : List (Reference Object)}
    (disjoint : ∀ object ∈ kept, object ∉ freed)
    (within : references.all (entryWithin (kept ++ freed)) = true) :
    (references.filter fun reference => freed.all fun object => !isEntryOf object reference) =
      references.filter (entryWithin kept) := by
  apply List.filter_congr
  intro reference mem
  cases reference with
  | strong target => simp [isEntryOf, entryWithin]
  | weak other target =>
      have here : other ∈ kept ∨ other ∈ freed := by
        simpa [entryWithin] using List.all_eq_true.mp within _ mem
      rw [Bool.eq_iff_iff]
      simp only [isEntryOf, entryWithin, List.all_eq_true, Bool.not_eq_true', decide_eq_false_iff_not,
        decide_eq_true_eq]
      constructor
      · intro notFreed
        exact here.resolve_right fun isFreed => notFreed other isFreed rfl
      · rintro isKept object isFreed rfl
        exact disjoint _ isKept isFreed

theorem Within.entryWithin {objects : List Object} {reference : Reference Object}
    (within : Within objects reference) : entryWithin objects reference = true := by
  cases reference with
  | strong target => rfl
  | weak other target => simpa [Cmsframe.entryWithin] using within.1

/-- The counts after the roots are moved: only the roots are visited. -/
def startRefs (cpointer32Bit : Bool) (context : GcContext Object) : RefCounts Object :=
  fun object => if object ∈ context.objects ∧ context.refs object = 0 then
    ecmaObjectNonVisited cpointer32Bit else context.refs object

theorem startRefs_root (isRoot : object ∈ context.roots) :
    startRefs cpointer32Bit context object = context.refs object := by
  rw [startRefs, if_neg]
  rintro ⟨_, isZero⟩
  have isCounted := isRoot.2
  omega

theorem startRefs_other (inHeap : object ∈ context.objects) (notRoot : object ∉ context.roots) :
    startRefs cpointer32Bit context object = ecmaObjectNonVisited cpointer32Bit := by
  rw [startRefs, if_pos]
  refine ⟨inHeap, ?_⟩
  by_contra notZero
  exact notRoot ⟨inHeap, by omega⟩

theorem GcContext.Progress.start (cpointer32Bit : Bool) (context : GcContext Object) :
    context.Progress cpointer32Bit (startRefs cpointer32Bit context) ∅ ∅ where
  closed := closed_empty _
  roots _ isRoot := startRefs_root isRoot
  others _ inHeap notRoot := .inl (startRefs_other inHeap notRoot)
  isFinished object inHeap notRoot isZero := by
    have large := one_lt_ecmaObjectNonVisited cpointer32Bit
    rw [startRefs_other inHeap notRoot] at isZero
    omega
  live object isVisited := by
    rcases isVisited with ⟨inHeap, isVisited⟩
    by_cases isRoot : object ∈ context.roots
    · exact .root isRoot
    · rw [startRefs_other inHeap isRoot] at isVisited
      exact absurd isVisited (lt_irrefl _)

/-- The marker on a heap as it is between two runs. -/
theorem GcContext.WellFormed.marked (wellFormed : context.WellFormed cpointer32Bit)
    (positive : 0 < limit) :
    let start := moveRoots cpointer32Bit context.objects ⟨context.refs, [], []⟩
    let refs := markRoots cpointer32Bit context.graph limit start.black start.refs
    ∃ lists, markNonRoots cpointer32Bit context.graph limit (context.objects.length + 1)
        { start with refs } = .ok lists ∧
      (lists.black ++ lists.whiteGray).Perm context.objects ∧
      (∀ object, object ∈ lists.black ↔ context.InUse object) ∧
      ∀ object ∈ lists.black, lists.refs object = context.refs object := by
  have areRoots : ∀ object ∈ context.objects.filter fun object => 1 ≤ context.refs object,
      object ∈ context.roots := fun object mem => by simpa [GcContext.roots] using mem
  rcases (GcContext.Progress.start cpointer32Bit context).markRoots wellFormed areRoots positive with
    ⟨finished, _, rootsFinished, progress⟩
  have holds := GcContext.Lists.start wellFormed progress.roots
  rcases progress.markNonRoots wellFormed holds positive
    (Nat.lt_succ_of_le (List.length_filter_le _ _)) with
    ⟨lists, later, returns, grows, progress, holds, white⟩
  have allRoots : context.roots ⊆ later := fun object isRoot =>
    grows (rootsFinished object (by simpa [GcContext.roots] using isRoot))
  rw [moveRoots_eq wellFormed.nodup]
  refine ⟨lists, returns, by simpa using holds.perm, ?_, ?_⟩
  · exact fun object => progress.mem_black_iff wellFormed holds allRoots white
  · intro object inBlack
    by_cases isRoot : object ∈ context.roots
    · exact progress.roots object isRoot
    · have isZero := (holds.black object inBlack).2 isRoot
      have inHeap := (holds.black object inBlack).1.1
      rw [isZero]
      by_contra notZero
      exact isRoot ⟨inHeap, by omega⟩

/-- `ecma_gc_run` ends without touching an object that was freed. It keeps the objects in use,
with their counts and with the entries whose other object is in use too, and it frees all the
others. A build with a `JERRY_GC_MARK_LIMIT` of zero does not. -/
theorem ecmaGcRun_spec (wellFormed : context.WellFormed cpointer32Bit) (positive : 0 < limit) :
    ∃ after, ecmaGcRun cpointer32Bit limit context = .ok after ∧
      after.WellFormed cpointer32Bit ∧
      (∀ object, object ∈ after.objects ↔ context.InUse object) ∧
      (∀ object ∈ after.objects, after.refs object = context.refs object ∧
        after.graph.references object =
          (context.graph.references object).filter (entryWithin after.objects)) ∧
      after.newObjects = 0 := by
  rcases wellFormed.marked positive with ⟨lists, returns, perm, inUse, sameCounts⟩
  have nodup := perm.nodup_iff.mpr wellFormed.nodup
  have within : ∀ owner ∈ lists.black ++ lists.whiteGray, (context.graph.references owner).all
      (entryWithin (lists.black ++ lists.whiteGray)) = true := by
    intro owner mem
    rw [List.all_eq_true]
    intro reference refers
    have here := wellFormed.contained owner (perm.subset mem) reference refers
    cases reference with
    | strong target => rfl
    | weak other target => simpa [entryWithin] using perm.symm.subset here.1
  have disjoint : ∀ object ∈ lists.black, object ∉ lists.whiteGray := fun object isKept isFreed =>
    (List.nodup_append.mp nodup).2.2 object isKept object isFreed rfl
  have kept : ∀ object ∈ lists.black,
      (lists.whiteGray.foldl removeObject context.graph).references object =
        (context.graph.references object).filter (entryWithin lists.black) := by
    intro object isKept
    rw [references_foldl_removeObject _ _ (disjoint object isKept), filter_entryWithin disjoint
      (within object (List.mem_append_left _ isKept))]
  refine ⟨{
      graph := lists.whiteGray.foldl removeObject context.graph
      objects := lists.black
      refs := lists.refs
      objectsNumber := context.objectsNumber - lists.whiteGray.length
      newObjects := 0 }, ?_, ⟨(List.nodup_append.mp nodup).1, ?_, ?_, ?_⟩, inUse,
    fun object isKept => ⟨sameCounts object isKept, kept object isKept⟩, rfl⟩
  · rw [ecmaGcRun]
    simp only [returns, bind, Except.bind]
    exact sweep_eq _ nodup within
  · intro object isKept
    exact (sameCounts object isKept).trans_le
      (wellFormed.counted object (perm.subset (List.mem_append_left _ isKept)))
  · have length := perm.length_eq
    rw [List.length_append] at length
    have number := wellFormed.number
    simp only
    omega
  · intro owner isKept reference refers
    simp only at isKept refers
    rw [kept owner isKept, List.mem_filter] at refers
    rcases refers with ⟨refers, isWithin⟩
    have ownerLive := (inUse owner).mp isKept
    cases reference with
    | strong target => exact (inUse target).mpr (.strong ownerLive refers)
    | weak other target =>
        have otherKept : other ∈ lists.black := by simpa [entryWithin] using isWithin
        refine ⟨otherKept, ?_⟩
        rintro node rfl
        exact (inUse node).mpr (.weak ownerLive ((inUse other).mp otherKept) refers)

/-- A heap with one root. It refers to the second object, and a weak entry of it has the third
object as its key. The last two refer to each other. -/
def keyedHeap : GcContext ℕ where
  graph :=
    { references := fun
        | 0 => [.strong 1, .weak 2 (some 3)]
        | 2 => [.weak 0 (some 3), .strong 3]
        | 3 => [.strong 2]
        | _ => []
      paired := by
        intro owner other target mem
        rcases owner with _ | _ | _ | _ | owner <;> simp at mem
        all_goals simp [mem] }
  objects := [3, 2, 1, 0]
  refs object := if object = 0 then 1 else 0
  objectsNumber := 4
  newObjects := 4

theorem wellFormed_keyedHeap : keyedHeap.WellFormed false where
  nodup := by decide
  counted := by decide
  number := rfl
  contained := by
    simp [Contained, Within, keyedHeap]

theorem ecmaGcRun_keyedHeap :
    ∃ after, ecmaGcRun false 1 keyedHeap = .ok after ∧ after.WellFormed false ∧
      ∀ object, object ∈ after.objects ↔ keyedHeap.InUse object := by
  rcases ecmaGcRun_spec wellFormed_keyedHeap Nat.one_pos with ⟨after, returns, wellFormed, kept, _⟩
  exact ⟨after, returns, wellFormed, kept⟩

/-- Without recursion what an object refers to is freed while it is in use: here the third object,
which the second one refers to. -/
example : ((ecmaGcRun false 0 { keyedHeap with
    graph := ⟨fun
      | 0 => [.strong 1]
      | 1 => [.strong 2]
      | _ => [], by
        intro owner other target mem
        rcases owner with _ | _ | owner <;> simp at mem⟩ }).toOption.map
      GcContext.objects) = some [0, 1] := by
  decide

end Run

end Cmsframe
