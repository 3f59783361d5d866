import Arbor.Proofs.Ancestor
import Arbor.Proofs.Walk

/-!
# The leaf that a walk selects

Of all leaves there is one towards which every predicate above it leads. The walk of a tree visits
the ancestors of this leaf, one on every level, and ends at it.

## Main definitions

* `Tree.Selects`: every predicate above a leaf leads towards it.

## Main statements

* `Tree.selects_iff`: the outcomes select one leaf.
* `Tree.interpret_selected`: which nodes make a tree, and where the walks of the tree lead.
-/

namespace Arbor

open Index

namespace Tree

variable (tree : Tree) {features : Array Float32}

/-- Every node above `leaf` is in the tree and has an outcome, and this is true exactly if the way
to `leaf` goes on with the true child. -/
def Selects (features : Array Float32) (leaf : Nat) : Prop :=
  ∀ level < tree.depth, ∃ node outcome, tree.nodes[ancestor level leaf]? = some node ∧
    node.evaluate features = .ok outcome ∧
    (outcome = true ↔ ancestor (level + 1) leaf = trueChild (ancestor level leaf))

theorem levelOf_eq_depth_iff {leaf : Nat} : levelOf leaf = tree.depth ↔
    tree.nodes.size ≤ leaf ∧ leaf < tree.nodes.size + 2 ^ tree.depth := by
  have size : tree.nodes.size + 1 = 2 ^ tree.depth := tree.size_add_one
  rw [levelOf_eq_iff, Nat.pow_succ]
  omega

variable {tree}

/-- The ancestors of a selected leaf are the nodes of the descent, by induction on their levels. -/
theorem Selects.ancestor_eq {leaf : Nat} (selects : tree.Selects features leaf)
    (bottom : levelOf leaf = tree.depth) {level : Nat} (above : level ≤ tree.depth) :
    ancestor level leaf = descend (tree.outcome features) level 0 := by
  induction level with
  | zero => rw [ancestor_zero, descend_zero]
  | succ level ih =>
    obtain ⟨node, outcome, found, evaluated, turn⟩ := selects level above
    obtain ⟨next, step⟩ := @ancestor_succ level leaf (by omega)
    have same : tree.outcome features (ancestor level leaf) = outcome := by
      simp [Tree.outcome, found, Node.holds, evaluated]
    have taken : next = outcome := by
      rw [step, child_eq_trueChild] at turn
      exact Bool.eq_iff_iff.2 turn.symm
    rw [descend_last, ← ih (by omega), step, taken, same]

variable (tree)

theorem ancestor_leaf {level : Nat} (le : level ≤ tree.depth) :
    ancestor level (descend (tree.outcome features) tree.depth 0) =
      descend (tree.outcome features) level 0 := by
  simpa using ancestor_descend (tree.outcome features) 0 le

/-- The outcomes select the leaf of the descent, and no other. -/
theorem selects_iff (long : tree.requiredFeatures ≤ features.size) {leaf : Nat}
    (bottom : levelOf leaf = tree.depth) :
    tree.Selects features leaf ↔ leaf = descend (tree.outcome features) tree.depth 0 := by
  constructor
  · intro selects
    rw [← selects.ancestor_eq bottom (Nat.le_refl _), ← bottom, ancestor_levelOf]
  · rintro rfl level inner
    rw [tree.ancestor_leaf inner.le, tree.ancestor_leaf (Nat.succ_le_of_lt inner), descend_last]
    have inside : levelOf (descend (tree.outcome features) level 0) < tree.depth := by
      simpa using inner
    obtain ⟨node, -, found, evaluated⟩ := tree.exists_node inside long
    exact ⟨node, _, found, evaluated, child_eq_trueChild.symm⟩

/-- Hops lead from ancestor to ancestor of the leaf. -/
theorem interpretHops_ancestor (long : tree.requiredFeatures ≤ features.size) {functionDepth : Nat}
    (positive : 0 < functionDepth) : tree.interpretHops features functionDepth =
      .ok ((List.range (Layout.levelCount tree.depth functionDepth)).map fun hop =>
        ancestor (hop * functionDepth) (descend (tree.outcome features) tree.depth 0)) := by
  rw [tree.hops_eq long positive]
  congr 1
  apply List.map_congr_left
  intro hop inside
  have inner := (Layout.lt_levelCount_iff positive).1 (List.mem_range.1 inside)
  rw [Nat.mul_comm] at inner
  exact (tree.ancestor_leaf inner.le).symm

/-- Nodes make a tree if and only if they fill the levels of one. A walk of the tree then takes
steps that lead through the ancestors of a leaf to this leaf, and it is the only one that the
outcomes select. The boundary nodes that it visits are ancestors, too. -/
theorem interpret_selected (nodes : Array Node) :
    (∀ depth, (∃ tree, ofNodes nodes = .ok tree ∧ tree.depth = depth) ↔
      (1 ≤ depth ∧ depth ≤ 30) ∧ nodes.size = 2 ^ depth - 1) ∧
    ∀ tree, ofNodes nodes = .ok tree → ∀ features, tree.requiredFeatures ≤ features.size →
      ∃ leaf, tree.interpret features = .ok leaf ∧
        tree.Walks features 0 ((List.range tree.depth).map (ancestor · leaf)) leaf ∧
        tree.isLeaf leaf = true ∧
        (∀ other, (nodes.size ≤ other ∧ other < nodes.size + 2 ^ tree.depth) ∧
          tree.Selects features other ↔ other = leaf) ∧
        ∀ functionDepth, 1 ≤ functionDepth → ∃ hops,
          tree.interpretHops features functionDepth = .ok hops ∧
          hops = (List.range (Layout.levelCount tree.depth functionDepth)).map
            (fun hop => ancestor (hop * functionDepth) leaf) ∧
          hops.Pairwise (· < ·) := by
  refine ⟨fun depth => ⟨?_, ?_⟩, ?_⟩
  · rintro ⟨tree, made, rfl⟩
    rw [← ofNodes_eq_ok.1 made]
    exact ⟨⟨tree.depth_pos, tree.depth_le⟩, tree.size_eq⟩
  · rintro ⟨⟨pos, shallow⟩, size⟩
    exact ⟨⟨nodes, depth, size, pos, shallow⟩, ofNodes_eq_ok.2 rfl, rfl⟩
  intro tree made features long
  obtain rfl := ofNodes_eq_ok.1 made
  have bottom : levelOf (descend (tree.outcome features) tree.depth 0) = tree.depth := by simp
  refine ⟨_, tree.interpret_eq long, ?_, ?_, fun other => ?_, fun functionDepth positive => ?_⟩
  · rw [List.map_congr_left fun level inner => tree.ancestor_leaf (List.mem_range.1 inner).le]
    exact tree.walks_descend long tree.depth 0 (by simp)
  · exact decide_eq_true (tree.levelOf_eq_depth_iff.1 bottom).1
  · rw [← tree.levelOf_eq_depth_iff]
    constructor
    · rintro ⟨level, selects⟩
      exact (tree.selects_iff long level).1 selects
    · rintro rfl
      exact ⟨bottom, (tree.selects_iff long bottom).2 rfl⟩
  · refine ⟨_, tree.interpretHops_ancestor long positive, rfl, ?_⟩
    rw [List.pairwise_map]
    refine List.pairwise_lt_range.imp_of_mem fun {first second} here there less => ?_
    have inner := (Layout.lt_levelCount_iff positive).1 (List.mem_range.1 there)
    have further := Nat.mul_lt_mul_of_pos_right less positive
    rw [Nat.mul_comm] at inner
    apply lt_of_levelOf_lt
    rwa [levelOf_ancestor (by omega), levelOf_ancestor (by omega)]

def stripes : Array Node :=
  #[⟨0, .bypass, .greaterThan, 0.5⟩, ⟨1, .bypass, .lessThan, 0.5⟩, ⟨1, .bypass, .greaterThan, 0.5⟩,
    ⟨0, .bypass, .lessThan, 0.25⟩, ⟨0, .bypass, .greaterThan, 0.25⟩, ⟨0, .bypass, .lessThan, 0.75⟩,
    ⟨0, .bypass, .greaterThan, 0.75⟩]

/-- With functions of two levels there are two hops through three levels. -/
theorem interpret_selected_stripes : ∃ tree leaf, ofNodes stripes = .ok tree ∧ tree.depth = 3 ∧
    tree.requiredFeatures ≤ 2 ∧ tree.interpret #[0.75, 0 / 0] = .ok leaf ∧ (7 ≤ leaf ∧ leaf < 15) ∧
    tree.Selects #[0.75, 0 / 0] leaf ∧
    tree.interpretHops #[0.75, 0 / 0] 2 = .ok [ancestor 0 leaf, ancestor 2 leaf] := by
  obtain ⟨makes, walks⟩ := interpret_selected stripes
  obtain ⟨tree, made, depth⟩ := (makes 3).2 (by decide)
  have required : tree.requiredFeatures ≤ 2 := by
    rw [requiredFeatures, maxFeature, ofNodes_eq_ok.1 made]
    decide
  obtain ⟨leaf, interpreted, -, -, selected, hops⟩ := walks tree made #[0.75, 0 / 0] required
  obtain ⟨_, hopped, rfl, -⟩ := hops 2 (by decide)
  obtain ⟨range, selects⟩ := (selected leaf).2 rfl
  rw [depth] at range hopped
  exact ⟨tree, leaf, made, depth, required, interpreted, range, selects, hopped⟩

end Tree

end Arbor
