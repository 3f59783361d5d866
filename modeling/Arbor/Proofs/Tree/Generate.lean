import Arbor.Tree.Generate
import Arbor.Proofs.Walk

/-!
# Generated trees

A tree of a possible depth is generated from as many nodes as it has room for, so that generators
differ in nothing but their nodes.

## Main statements

* `Tree.plannedSize_eq`, `Tree.generated_eq_ok`: how many nodes make a tree of a depth.
* `Tree.generated_ofFn`: the tree with a node for every index.
* `Tree.ownFeatures_eq_ok`: the tree in which every node reads a feature of its own.
-/

namespace Arbor.Tree

open Index

variable {depth : Nat}

theorem plannedSize_eq (shallow : depth ≤ maxTreeDepth) :
    plannedSize depth = .ok (treeNodes depth) := by
  have short := shallow
  simp only [maxTreeDepth] at short
  simp [plannedSize, Bounded.treeNodes_eq (show depth < 64 by omega), Nat.not_lt.2 shallow]

theorem generated_eq_ok (pos : 0 < depth) (shallow : depth ≤ maxTreeDepth) {nodes : Array Node}
    (size : nodes.size = treeNodes depth) :
    ∃ tree, generated nodes = .ok tree ∧ tree.nodes = nodes ∧ tree.depth = depth := by
  obtain ⟨tree, rfl, rfl⟩ : ∃ tree : Tree, tree.nodes = nodes ∧ tree.depth = depth :=
    ⟨⟨nodes, depth, size, pos, shallow⟩, rfl, rfl⟩
  exact ⟨tree, by simp [generated, ofNodes_eq_ok.2 rfl], rfl, rfl⟩

theorem generated_ofFn (pos : 0 < depth) (shallow : depth ≤ maxTreeDepth) (node : Nat → Node) :
    ∃ tree, generated (Array.ofFn fun index : Fin (treeNodes depth) => node index) = .ok tree ∧
      tree.depth = depth ∧
      ∀ index found, tree.nodes[index]? = some found → found = node index := by
  obtain ⟨tree, made, nodes, rfl⟩ := @generated_eq_ok depth pos shallow
    (Array.ofFn fun index : Fin (treeNodes depth) => node index) (by simp)
  refine ⟨tree, made, rfl, fun index found here => ?_⟩
  rw [nodes, Array.getElem?_ofFn] at here
  split at here
  · exact (Option.some.inj here).symm
  · cases here

theorem ownFeatures_eq_ok (pos : 0 < depth) (shallow : depth ≤ maxTreeDepth) :
    ∃ tree, ownFeatures depth = .ok tree ∧ tree.depth = depth ∧
      ∀ index node, tree.nodes[index]? = some node → node = ownFeatureNode index := by
  obtain ⟨tree, made, same, nodes⟩ := generated_ofFn pos shallow ownFeatureNode
  refine ⟨tree, ?_, same, nodes⟩
  rw [ownFeatures, plannedSize_eq shallow, ok_bind, made]

end Arbor.Tree
