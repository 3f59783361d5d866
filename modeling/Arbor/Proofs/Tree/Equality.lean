import Arbor.Proofs.Float32
import Arbor.Proofs.Walk

/-!
# Equal trees

Trees are compared by their numbers: a bias of zero is equal to one of negative zero, and one that
is not a number to nothing at all. So equal trees need not be the same, but no feature vector tells
them apart.

## Main statements

* `Node.holds_congr_of_beq`: equal nodes are true of the same feature vectors.
* `Tree.Alike.of_beq`: equal trees cannot be told apart.
-/

namespace Arbor

theorem Comparator.compare_congr_of_beq (comparator : Comparator) (value : Float32)
    {bias other : Float32} (h : (bias == other) = true) :
    comparator.compare value bias = comparator.compare value other := by
  obtain ⟨left, right⟩ := Float32.lt_congr_of_beq h value
  cases comparator <;> simp [compare, left, right]

namespace Node

variable {node other : Node}

theorem beq_iff : (node == other) = true ↔ node.feature = other.feature ∧
    node.operation = other.operation ∧ node.comparator = other.comparator ∧
      (node.bias == other.bias) = true := by
  obtain ⟨feature, operation, comparator, bias⟩ := node
  obtain ⟨feature', operation', comparator', bias'⟩ := other
  change (feature == feature' && (operation == operation' &&
    (comparator == comparator' && bias == bias'))) = true ↔ _
  simp

theorem holds_congr_of_beq (h : (node == other) = true) (features : Array Float32) :
    node.holds features = other.holds features := by
  obtain ⟨feature, operation, comparator, bias⟩ := beq_iff.1 h
  simp only [holds, evaluate, feature, operation, comparator]
  cases features[other.feature.toNat]? with
  | none => rfl
  | some value => exact other.comparator.compare_congr_of_beq _ bias

end Node

namespace Tree

variable {tree other : Tree}

theorem beq_iff : (tree == other) = true ↔ tree.depth = other.depth ∧
    ∃ same : tree.nodes.size = other.nodes.size,
      ∀ (i : Nat) (h : i < tree.nodes.size), (tree.nodes[i] == other.nodes[i]) = true := by
  change (tree.nodes == other.nodes && tree.depth == other.depth) = true ↔ _
  rw [Bool.and_eq_true, and_comm]
  exact and_congr beq_iff_eq Array.isEqv_iff_rel

theorem maxFeature_congr_of_beq (h : (tree == other) = true) :
    tree.maxFeature = other.maxFeature := by
  obtain ⟨-, size, nodes⟩ := beq_iff.1 h
  have features : tree.nodes.map (·.feature) = other.nodes.map (·.feature) := by
    refine Array.ext (by simpa using size) fun i left right => ?_
    rw [Array.getElem_map, Array.getElem_map]
    exact (Node.beq_iff.1 (nodes i (by simpa using left))).1
  have fold : ∀ tree : Tree, tree.maxFeature =
      (tree.nodes.map (·.feature)).foldl (fun largest feature => max largest feature.toNat) 0 :=
    fun tree => by rw [Array.foldl_map, maxFeature]
  rw [fold tree, fold other, features]

/-- Equal trees cannot be told apart. -/
theorem Alike.of_beq (h : (tree == other) = true) : tree.Alike other := by
  obtain ⟨depth, size, nodes⟩ := beq_iff.1 h
  refine ⟨depth, congrArg (· + 1) (maxFeature_congr_of_beq h), fun features => ?_⟩
  funext index
  by_cases inside : index < tree.nodes.size
  · have found := Array.getElem?_eq_getElem inside
    have matching := Array.getElem?_eq_getElem (size ▸ inside)
    rw [outcome, outcome, found, matching]
    exact Node.holds_congr_of_beq (nodes index inside) features
  · have absent := Array.getElem?_eq_none (Nat.le_of_not_lt inside)
    have missing := Array.getElem?_eq_none (size ▸ Nat.le_of_not_lt inside)
    rw [outcome, outcome, absent, missing]

def IsFinite (tree : Tree) : Prop := ∀ node ∈ tree.nodes, node.bias.isFinite = true

theorem isFinite_congr_of_beq (h : (tree == other) = true) : tree.IsFinite ↔ other.IsFinite := by
  obtain ⟨-, size, nodes⟩ := beq_iff.1 h
  have bias : ∀ (i : Nat) (inside : i < tree.nodes.size),
      tree.nodes[i].bias.isFinite = other.nodes[i].bias.isFinite :=
    fun i inside => Float32.isFinite_congr_of_beq (Node.beq_iff.1 (nodes i inside)).2.2.2
  unfold IsFinite
  rw [Array.forall_mem_iff_forall_getElem, Array.forall_mem_iff_forall_getElem]
  constructor
  · intro finite i inside
    rw [← bias i (size ▸ inside)]
    exact finite i (size ▸ inside)
  · intro finite i inside
    rw [bias i inside]
    exact finite i (size ▸ inside)

/-- A tree is equal to itself, if its biases are finite. -/
theorem IsFinite.beq_self (finite : tree.IsFinite) : (tree == tree) = true := by
  refine beq_iff.2 ⟨rfl, rfl, fun _ inside => Node.beq_iff.2 ⟨rfl, rfl, rfl, ?_⟩⟩
  exact Float32.beq_self_of_isFinite (finite _ (Array.getElem_mem inside))

end Tree

end Arbor
