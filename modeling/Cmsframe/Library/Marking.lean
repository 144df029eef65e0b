import Mathlib.Data.Set.Basic
import Mathlib.Data.Set.Insert

/-!
# Marking with weak references

Which objects of a heap are in use, where some references count only together with a second
object, and what a marker has to do to find them all. A marker visits objects one inside the
other and may leave some of the visited ones for later. `Marks` states what it has achieved
between two moments. Such steps compose, and once every marked object is finished, all objects
in use are marked.
-/

namespace Marking

universe u

/-- A reference found in an object. A weak one is an entry that another object takes part in,
and its target is referred to only if both are in use. -/
inductive Reference (Node : Type u) where
  | strong (target : Node)
  | weak (other : Node) (target : Option Node)
  deriving DecidableEq

/-- The references of all objects. A weak entry is found in both objects that take part in it. -/
structure Graph (Node : Type u) where
  references : Node → List (Reference Node)
  paired : ∀ {owner other : Node} {target : Option Node},
    .weak other target ∈ references owner → .weak owner target ∈ references other

variable {Node : Type u} {graph : Graph Node}

/-- The objects in use. -/
inductive Live (graph : Graph Node) (roots : Set Node) : Node → Prop where
  | root {node : Node} (isRoot : node ∈ roots) : Live graph roots node
  | strong {owner target : Node} (live : Live graph roots owner)
      (refers : .strong target ∈ graph.references owner) : Live graph roots target
  | weak {owner other target : Node} (live : Live graph roots owner)
      (otherLive : Live graph roots other)
      (refers : .weak other (some target) ∈ graph.references owner) : Live graph roots target

/-- What a marker does between two moments: some of the objects it marks are finished. -/
structure Marks (graph : Graph Node) (before after finished : Set Node) : Prop where
  grows : before ⊆ after
  marked : finished ⊆ after
  strong : ∀ {owner target : Node}, owner ∈ finished →
    .strong target ∈ graph.references owner → target ∈ after
  weak : ∀ {owner other target : Node}, owner ∈ finished →
    .weak other (some target) ∈ graph.references owner → other ∈ before ∪ finished →
      target ∈ after

/-- A marker that goes through references of a marked object. -/
structure Scans (graph : Graph Node) (before after finished : Set Node)
    (references : List (Reference Node)) : Prop extends Marks graph before after finished where
  strongAll : ∀ {target : Node}, .strong target ∈ references → target ∈ after
  weakAll : ∀ {other target : Node}, .weak other (some target) ∈ references →
    other ∈ before → target ∈ after

/-- Finished objects refer to marked ones. -/
structure Closed (graph : Graph Node) (marked finished : Set Node) : Prop where
  subset : finished ⊆ marked
  strong : ∀ {owner target : Node}, owner ∈ finished →
    .strong target ∈ graph.references owner → target ∈ marked
  weak : ∀ {owner other target : Node}, owner ∈ finished → other ∈ finished →
    .weak other (some target) ∈ graph.references owner → target ∈ marked

variable {before middle after finished later roots : Set Node} {owner : Node}
  {references rest : List (Reference Node)}

theorem Marks.refl (marked : Set Node) : Marks graph marked marked ∅ where
  grows := subset_rfl
  marked := Set.empty_subset marked
  strong isFinished := isFinished.elim
  weak isFinished := isFinished.elim

/-- An entry between an object of each step is seen by the later one. -/
theorem Marks.trans (first : Marks graph before middle finished)
    (second : Marks graph middle after later) : Marks graph before after (finished ∪ later) where
  grows := first.grows.trans second.grows
  marked := Set.union_subset (first.marked.trans second.grows) second.marked
  strong := by
    rintro owner target (isFirst | isSecond) refers
    · exact second.grows (first.strong isFirst refers)
    · exact second.strong isSecond refers
  weak := by
    rintro owner other target (isFirst | isSecond) refers otherMarked
    · rcases otherMarked with wasMarked | otherFirst | otherSecond
      · exact second.grows (first.weak isFirst refers (.inl wasMarked))
      · exact second.grows (first.weak isFirst refers (.inr otherFirst))
      · exact second.weak otherSecond (graph.paired refers) (.inl (first.marked isFirst))
    · rcases otherMarked with wasMarked | otherFirst | otherSecond
      · exact second.weak isSecond refers (.inl (first.grows wasMarked))
      · exact second.weak isSecond refers (.inl (first.marked otherFirst))
      · exact second.weak isSecond refers (.inr otherSecond)

theorem Scans.nil (marked : Set Node) : Scans graph marked marked ∅ [] where
  toMarks := Marks.refl marked
  strongAll mem := by cases mem
  weakAll mem := by cases mem

theorem Scans.strongCons {target : Node} (first : Marks graph before middle finished)
    (isMarked : target ∈ middle) (scans : Scans graph middle after later rest) :
    Scans graph before after (finished ∪ later) (.strong target :: rest) where
  toMarks := first.trans scans.toMarks
  strongAll := by
    intro other mem
    rcases List.mem_cons.mp mem with isFirst | inRest
    · cases isFirst
      exact scans.grows isMarked
    · exact scans.strongAll inRest
  weakAll := by
    intro other target mem otherMarked
    rcases List.mem_cons.mp mem with isFirst | inRest
    · cases isFirst
    · exact scans.weakAll inRest (first.grows otherMarked)

theorem Scans.weakCons (other : Node) (target : Option Node)
    (first : Marks graph before middle finished)
    (isMarked : ∀ node, target = some node → other ∈ before → node ∈ middle)
    (scans : Scans graph middle after later rest) :
    Scans graph before after (finished ∪ later) (.weak other target :: rest) where
  toMarks := first.trans scans.toMarks
  strongAll := by
    intro target mem
    rcases List.mem_cons.mp mem with isFirst | inRest
    · cases isFirst
    · exact scans.strongAll inRest
  weakAll := by
    intro other target mem otherMarked
    rcases List.mem_cons.mp mem with isFirst | inRest
    · cases isFirst
      exact scans.grows (isMarked target rfl otherMarked)
    · exact scans.weakAll inRest (first.grows otherMarked)

/-- An entry of an object that is gone through, with an object that is finished meanwhile. -/
theorem Scans.weak_finished {other target : Node}
    (scans : Scans graph before after finished references) (isMarked : owner ∈ before)
    (refers : .weak other (some target) ∈ graph.references owner) (otherFinished : other ∈ finished) :
    target ∈ after :=
  scans.weak otherFinished (graph.paired refers) (.inl isMarked)

/-- An object is marked first, and then its references are gone through. -/
theorem Scans.visit (scans : Scans graph (insert owner before) after finished
    (graph.references owner)) : Marks graph before after (insert owner finished) where
  grows := (Set.subset_insert owner before).trans scans.grows
  marked := Set.insert_subset (scans.grows (Set.mem_insert owner before)) scans.marked
  strong := by
    rintro _ target (rfl | isFinished) refers
    · exact scans.strongAll refers
    · exact scans.strong isFinished refers
  weak := by
    rintro holder other target (rfl | isFinished) refers otherMarked
    · rcases otherMarked with wasMarked | rfl | otherFinished
      · exact scans.weakAll refers (Set.mem_insert_of_mem holder wasMarked)
      · exact scans.weakAll refers (Set.mem_insert other before)
      · exact scans.weak_finished (Set.mem_insert holder before) refers otherFinished
    · rcases otherMarked with wasMarked | rfl | otherFinished
      · exact scans.weak isFinished refers (.inl (Set.mem_insert_of_mem owner wasMarked))
      · exact scans.weak isFinished refers (.inl (Set.mem_insert other before))
      · exact scans.weak isFinished refers (.inr otherFinished)

theorem closed_empty (marked : Set Node) : Closed graph marked ∅ where
  subset := Set.empty_subset marked
  strong isFinished := isFinished.elim
  weak isFinished := isFinished.elim

/-- Going through an object that was left for later finishes it. -/
theorem Closed.scan (closed : Closed graph before finished) (isMarked : owner ∈ before)
    (scans : Scans graph before after later (graph.references owner)) :
    Closed graph after (insert owner (finished ∪ later)) where
  subset := Set.insert_subset (scans.grows isMarked)
    (Set.union_subset (closed.subset.trans scans.grows) scans.marked)
  strong := by
    rintro _ target (rfl | isOld | isNew) refers
    · exact scans.strongAll refers
    · exact scans.grows (closed.strong isOld refers)
    · exact scans.strong isNew refers
  weak := by
    rintro holder other target (rfl | isOld | isNew) (rfl | otherOld | otherNew) refers
    · exact scans.weakAll refers isMarked
    · exact scans.weakAll refers (closed.subset otherOld)
    · exact scans.weak_finished isMarked refers otherNew
    · exact scans.weakAll (graph.paired refers) (closed.subset isOld)
    · exact scans.grows (closed.weak isOld otherOld refers)
    · exact scans.weak_finished (closed.subset isOld) refers otherNew
    · exact scans.weak isNew refers (.inl isMarked)
    · exact scans.weak isNew refers (.inl (closed.subset otherOld))
    · exact scans.weak isNew refers (.inr otherNew)

/-- If everything marked is finished, all objects in use are marked. -/
theorem Closed.live {node : Node} (closed : Closed graph finished finished)
    (rootsMarked : roots ⊆ finished) (live : Live graph roots node) : node ∈ finished := by
  induction live with
  | root isRoot => exact rootsMarked isRoot
  | strong _ refers ih => exact closed.strong ih refers
  | weak _ _ refers ih ihOther => exact closed.weak ih ihOther refers

end Marking
