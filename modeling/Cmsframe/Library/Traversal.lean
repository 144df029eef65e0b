import Mathlib.Data.Finset.Card
import Mathlib.Data.Finset.SDiff
import Mathlib.Logic.Relation

/-!
# Traversals that keep their path

A depth-first traversal that remembers only the nodes on the way from the root can be
run on any graph: it visits shared nodes once for every path to them, and it stops when
it meets a node of its own path. `explore` computes a result from the results of the
successors in this way. On a graph with finitely many inner nodes enough fuel always
suffices, and the traversal is stopped by a cycle exactly if one can be reached.
-/

namespace Traversal

universe u

/-- Why a traversal was given up. -/
inductive Stop where
  | exhausted
  | cyclic
  deriving DecidableEq

variable {Node Result : Type u}

theorem mapM_eq_ok {visit : Node → Except Stop Result} {nodes : List Node}
    {results : List Result} (visited : nodes.mapM visit = .ok results) :
    List.Forall₂ (fun node result => visit node = .ok result) nodes results := by
  induction nodes generalizing results with
  | nil =>
      cases visited
      exact .nil
  | cons node nodes ih =>
      rw [List.mapM_cons] at visited
      cases first : visit node with
      | error stop =>
          rw [first] at visited
          cases visited
      | ok result =>
          cases rest : nodes.mapM visit with
          | error stop =>
              rw [first, rest] at visited
              cases visited
          | ok others =>
              rw [first, rest] at visited
              cases visited
              exact .cons first (ih rest)

theorem mapM_eq_error {visit : Node → Except Stop Result} {nodes : List Node} {stop : Stop}
    (visited : nodes.mapM visit = .error stop) : ∃ node ∈ nodes, visit node = .error stop := by
  induction nodes with
  | nil => cases visited
  | cons node nodes ih =>
      rw [List.mapM_cons] at visited
      cases first : visit node with
      | error reason =>
          rw [first] at visited
          cases visited
          exact ⟨node, List.mem_cons_self, first⟩
      | ok result =>
          cases rest : nodes.mapM visit with
          | error reason =>
              rw [first, rest] at visited
              cases visited
              rcases ih rest with ⟨other, mem, failed⟩
              exact ⟨other, List.mem_cons_of_mem node mem, failed⟩
          | ok others =>
              rw [first, rest] at visited
              cases visited

variable [DecidableEq Node] (successors : Node → List Node)
variable (combine : Node → List Result → Result)

/-- Visit a node that was reached along a path. -/
def explore : ℕ → List Node → Node → Except Stop Result
  | 0, _, _ => .error .exhausted
  | fuel + 1, path, node =>
      if node ∈ path then
        .error .cyclic
      else
        ((successors node).mapM (explore fuel (node :: path))).map (combine node)

/-- One node is a successor of another. -/
def Edge (parent child : Node) : Prop := child ∈ successors parent

mutual

/-- The result of a node in the tree that the graph unfolds to. A shared node has its result
in every place. -/
inductive Expands : Node → Result → Prop where
  | node {node : Node} {results : List Result} (children : ExpandsAll (successors node) results) :
      Expands node (combine node results)

inductive ExpandsAll : List Node → List Result → Prop where
  | nil : ExpandsAll [] []
  | cons {node : Node} {nodes : List Node} {result : Result} {results : List Result}
      (first : Expands node result) (rest : ExpandsAll nodes results) :
      ExpandsAll (node :: nodes) (result :: results)

end

variable {successors combine}

omit [DecidableEq Node] in
theorem expandsAll_of_forall₂ {nodes : List Node} {results : List Result}
    (expand : List.Forall₂ (Expands successors combine) nodes results) :
    ExpandsAll successors combine nodes results := by
  induction expand with
  | nil => exact .nil
  | cons first _ ih => exact .cons first ih

/-- A visit that comes to an end has visited all successors. -/
theorem explore_eq_ok {fuel : ℕ} {path : List Node} {node : Node} {result : Result}
    (explored : explore successors combine (fuel + 1) path node = .ok result) :
    ∃ results, result = combine node results ∧
      List.Forall₂ (fun child found =>
        explore successors combine fuel (node :: path) child = .ok found)
          (successors node) results := by
  rw [explore] at explored
  split_ifs at explored
  cases visited : (successors node).mapM (explore successors combine fuel (node :: path)) with
  | error stop =>
      rw [visited] at explored
      cases explored
  | ok results =>
      rw [visited] at explored
      cases explored
      exact ⟨results, rfl, mapM_eq_ok visited⟩

/-- A visit is given up on its path, or because a successor is. -/
theorem explore_eq_error {fuel : ℕ} {path : List Node} {node : Node} {stop : Stop}
    (explored : explore successors combine (fuel + 1) path node = .error stop) :
    (node ∈ path ∧ stop = .cyclic) ∨
      (node ∉ path ∧ ∃ child, Edge successors node child ∧
        explore successors combine fuel (node :: path) child = .error stop) := by
  rw [explore] at explored
  split_ifs at explored with onPath
  · cases explored
    exact .inl ⟨onPath, rfl⟩
  · right
    refine ⟨onPath, ?_⟩
    cases visited : (successors node).mapM (explore successors combine fuel (node :: path)) with
    | ok results =>
        rw [visited] at explored
        cases explored
    | error reason =>
        rw [visited] at explored
        cases explored
        rcases mapM_eq_error visited with ⟨child, isChild, failed⟩
        exact ⟨child, isChild, failed⟩

/-- A traversal that comes to an end has computed the result of the unfolded tree. -/
theorem explore_expands {fuel : ℕ} {path : List Node} {node : Node} {result : Result}
    (explored : explore successors combine fuel path node = .ok result) :
    Expands successors combine node result := by
  induction fuel generalizing path node result with
  | zero => cases explored
  | succ fuel ih =>
      rcases explore_eq_ok explored with ⟨results, rfl, visited⟩
      apply Expands.node
      apply expandsAll_of_forall₂
      exact visited.imp fun _ _ first => ih first

/-- A node with a result has no infinite descent below it. -/
theorem explore_acc {fuel : ℕ} {path : List Node} {node : Node} {result : Result}
    (explored : explore successors combine fuel path node = .ok result) :
    Acc (fun child parent => Edge successors parent child) node := by
  induction fuel generalizing path node result with
  | zero => cases explored
  | succ fuel ih =>
      rcases explore_eq_ok explored with ⟨results, rfl, visited⟩
      rcases List.forall₂_iff_get.mp visited with ⟨length, each⟩
      constructor
      intro child isChild
      rcases List.mem_iff_get.mp isChild with ⟨index, rfl⟩
      exact ih (each index.val index.isLt (length ▸ index.isLt))

/-- A path of a traversal: every node is a successor of the next. -/
def IsPath (successors : Node → List Node) : List Node → Prop :=
  List.IsChain fun child parent => Edge successors parent child

omit [DecidableEq Node] in
theorem transGen_of_mem_path {path : List Node} {node other : Node}
    (isPath : IsPath successors (node :: path)) (mem : other ∈ path) :
    Relation.TransGen (Edge successors) other node := by
  induction path generalizing node with
  | nil => cases mem
  | cons parent path ih =>
      rcases List.isChain_cons_cons.mp isPath with ⟨edge, rest⟩
      rcases List.mem_cons.mp mem with rfl | inRest
      · exact .single edge
      · exact (ih rest inRest).tail edge

/-- A traversal that is stopped by its path has found a cycle below its root. -/
theorem explore_cyclic {fuel : ℕ} {path : List Node} {node : Node}
    (isPath : IsPath successors (node :: path))
    (explored : explore successors combine fuel path node = .error .cyclic) :
    ∃ other, Relation.ReflTransGen (Edge successors) node other ∧
      Relation.TransGen (Edge successors) other other := by
  induction fuel generalizing path node with
  | zero => cases explored
  | succ fuel ih =>
      rcases explore_eq_error explored with ⟨onPath, _⟩ | ⟨_, child, isChild, failed⟩
      · exact ⟨node, .refl, transGen_of_mem_path isPath onPath⟩
      · rcases ih (List.isChain_cons_cons.mpr ⟨isChild, isPath⟩) failed with
          ⟨other, reached, cycle⟩
        exact ⟨other, .head isChild reached, cycle⟩

omit [DecidableEq Node] in
/-- Below a node without infinite descent there is no cycle. -/
theorem not_cycle_of_acc {node other : Node}
    (descends : Acc (fun child parent => Edge successors parent child) node)
    (reached : Relation.ReflTransGen (Edge successors) node other) :
    ¬Relation.TransGen (Edge successors) other other := by
  induction descends generalizing other with
  | intro node _ ih =>
      intro cycle
      rcases Relation.ReflTransGen.cases_head reached with rfl | ⟨child, edge, rest⟩
      · rcases Relation.TransGen.head'_iff.mp cycle with ⟨child, edge, back⟩
        exact ih child edge back cycle
      · exact ih child edge rest cycle

/-- A visit to an inner node leaves fewer of them off the path. -/
theorem card_sdiff_cons_lt {inner : Finset Node} {path : List Node} {node : Node}
    (isInner : node ∈ inner) (offPath : node ∉ path) :
    (inner \ (node :: path).toFinset).card < (inner \ path.toFinset).card := by
  apply Finset.card_lt_card
  refine Finset.ssubset_iff_subset_ne.mpr ⟨?_, ?_⟩
  · apply Finset.sdiff_subset_sdiff (Finset.Subset.refl inner)
    intro other mem
    simp only [List.mem_toFinset, List.mem_cons] at mem ⊢
    exact .inr mem
  · intro same
    have mem : node ∈ inner \ path.toFinset := by
      simp [isInner, offPath]
    rw [← same] at mem
    simp at mem

/-- One unit of fuel for every inner node off the path, and one for a leaf, is enough. -/
theorem explore_ne_exhausted {inner : Finset Node}
    (leaves : ∀ node, node ∉ inner → successors node = []) {fuel : ℕ} {path : List Node}
    {node : Node} (enough : (inner \ path.toFinset).card < fuel) :
    explore successors combine fuel path node ≠ .error .exhausted := by
  induction fuel generalizing path node with
  | zero => exact absurd enough (Nat.not_lt_zero _)
  | succ fuel ih =>
      intro explored
      rcases explore_eq_error explored with ⟨_, isCyclic⟩ | ⟨offPath, child, isChild, failed⟩
      · cases isCyclic
      · by_cases isInner : node ∈ inner
        · have smaller := card_sdiff_cons_lt isInner offPath
          exact ih (by omega) failed
        · rw [Edge, leaves node isInner] at isChild
          cases isChild

/-- On a graph with finitely many inner nodes, a traversal from a root ends with the result
of the unfolded tree if no cycle can be reached, and is stopped by a cycle otherwise. -/
theorem explore_iff {inner : Finset Node}
    (leaves : ∀ node, node ∉ inner → successors node = []) {fuel : ℕ}
    (enough : inner.card < fuel) (root : Node) :
    ((∃ result, explore successors combine fuel [] root = .ok result) ↔
      ¬∃ other, Relation.ReflTransGen (Edge successors) root other ∧
        Relation.TransGen (Edge successors) other other) ∧
    (explore successors combine fuel [] root = .error .cyclic ↔
      ∃ other, Relation.ReflTransGen (Edge successors) root other ∧
        Relation.TransGen (Edge successors) other other) := by
  have ends : explore successors combine fuel [] root ≠ .error .exhausted :=
    explore_ne_exhausted leaves (by simpa using enough)
  cases explored : explore successors combine fuel [] root with
  | ok result =>
      have noCycle : ¬∃ other, Relation.ReflTransGen (Edge successors) root other ∧
          Relation.TransGen (Edge successors) other other := by
        rintro ⟨other, reached, cycle⟩
        exact not_cycle_of_acc (explore_acc explored) reached cycle
      exact ⟨iff_of_true ⟨result, rfl⟩ noCycle, iff_of_false nofun noCycle⟩
  | error stop =>
      cases stop with
      | exhausted => exact absurd explored ends
      | cyclic =>
          have cycle := explore_cyclic (.singleton root) explored
          exact ⟨iff_of_false nofun (not_not_intro cycle), iff_of_true rfl cycle⟩

end Traversal
