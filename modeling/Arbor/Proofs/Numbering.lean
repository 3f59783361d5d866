import Arbor.Index
import Arbor.Proofs.Outcome
import Mathlib.Tactic.Ring

/-!
# Levels and descents

The level of a node, the nodes of its subtree, and what is reached from it by following outcomes
downwards. Inside words all of this is exact as long as the levels involved are below 64.

## Main definitions

* `Index.descend`: the node that is reached by following outcomes for some levels.

## Main statements

* `Index.levelOf_descend`: a descent by `l` levels ends `l` levels below its start.
* `Index.subtreeNode_child`: the children of a position in a subtree are the children of its node.
* `Index.Bounded.subtreeNode_eq`: the numbering of a subtree does not leave the words.
-/

namespace Arbor.Index

/-- The node that is reached from a node by following the outcomes of the nodes on the way. -/
def descend (outcome : Nat → Bool) : (levels node : Nat) → Nat
  | 0, node => node
  | levels + 1, node => descend outcome levels (child (outcome node) node)

theorem treeNodes_eq (levels : Nat) : treeNodes levels = 2 ^ levels - 1 := rfl

theorem treeNodes_add_one (levels : Nat) : treeNodes levels + 1 = 2 ^ levels := by
  have := Nat.two_pow_pos levels
  rw [treeNodes_eq]
  omega

theorem levelOf_eq_iff {i level : Nat} :
    levelOf i = level ↔ 2 ^ level ≤ i + 1 ∧ i + 1 < 2 ^ (level + 1) :=
  Nat.log2_eq_iff (Nat.succ_ne_zero i)

theorem levelOf_lt_iff {i level : Nat} : levelOf i < level ↔ i + 1 < 2 ^ level :=
  Nat.log2_lt (Nat.succ_ne_zero i)

theorem two_pow_levelOf_le (i : Nat) : 2 ^ levelOf i ≤ i + 1 := (levelOf_eq_iff.1 rfl).1

theorem lt_two_pow_levelOf (i : Nat) : i + 1 < 2 ^ (levelOf i + 1) := (levelOf_eq_iff.1 rfl).2

/-- A node is not before the first node of its level. -/
theorem treeNodes_levelOf_le (i : Nat) : treeNodes (levelOf i) ≤ i := by
  have first := treeNodes_add_one (levelOf i)
  have low := two_pow_levelOf_le i
  omega

theorem lt_of_levelOf_lt {i j : Nat} (less : levelOf i < levelOf j) : i < j := by
  have high := levelOf_lt_iff.1 less
  have low := two_pow_levelOf_le j
  omega

@[simp] theorem levelOf_zero : levelOf 0 = 0 := by decide

@[simp] theorem levelOf_falseChild (i : Nat) : levelOf (falseChild i) = levelOf i + 1 := by
  have low := two_pow_levelOf_le i
  have high := lt_two_pow_levelOf i
  rw [levelOf_eq_iff, falseChild]
  omega

@[simp] theorem levelOf_trueChild (i : Nat) : levelOf (trueChild i) = levelOf i + 1 := by
  have low := two_pow_levelOf_le i
  have high := lt_two_pow_levelOf i
  rw [levelOf_eq_iff, trueChild]
  omega

@[simp] theorem levelOf_child (outcome : Bool) (i : Nat) :
    levelOf (child outcome i) = levelOf i + 1 := by
  cases outcome
  · exact levelOf_falseChild i
  · exact levelOf_trueChild i

theorem lt_child (outcome : Bool) (i : Nat) : i < child outcome i := by
  cases outcome <;> simp only [child, falseChild, trueChild, Bool.false_eq_true, ↓reduceIte] <;>
    omega

theorem child_add_one (outcome : Bool) (i : Nat) :
    child outcome i + 1 = 2 * (i + 1) + outcome.toNat := by
  cases outcome <;> simp [child, falseChild, trueChild] <;> omega

theorem child_eq_trueChild {outcome : Bool} {i : Nat} :
    child outcome i = trueChild i ↔ outcome = true := by
  cases outcome <;> simp [child, falseChild, trueChild]

/-! ## Descents -/

section descend

variable (outcome : Nat → Bool)

@[simp] theorem descend_zero (node : Nat) : descend outcome 0 node = node := rfl

theorem descend_succ (levels node : Nat) :
    descend outcome (levels + 1) node = descend outcome levels (child (outcome node) node) := rfl

theorem descend_add (first second node : Nat) :
    descend outcome (first + second) node =
      descend outcome second (descend outcome first node) := by
  induction first generalizing node with
  | zero => simp
  | succ first ih => rw [Nat.succ_add, descend_succ, descend_succ, ih]

/-- The last step of a descent. -/
theorem descend_last (levels node : Nat) :
    descend outcome (levels + 1) node =
      child (outcome (descend outcome levels node)) (descend outcome levels node) := by
  rw [descend_add, descend_succ, descend_zero]

@[simp] theorem levelOf_descend (levels node : Nat) :
    levelOf (descend outcome levels node) = levelOf node + levels := by
  induction levels generalizing node with
  | zero => rfl
  | succ levels ih =>
    rw [descend_succ, ih, levelOf_child]
    omega

/-- Outcomes on other levels than those passed do not matter. -/
theorem descend_congr {outcome other : Nat → Bool} {levels node : Nat}
    (same : ∀ i, levelOf i < levelOf node + levels → outcome i = other i) :
    descend outcome levels node = descend other levels node := by
  induction levels generalizing node with
  | zero => rfl
  | succ levels ih =>
    rw [descend_succ, descend_succ, same node (by omega)]
    apply ih
    intro i hi
    exact same i (by rw [levelOf_child] at hi; omega)

end descend

/-! ## Subtrees -/

theorem subtreeNode_add_one (root bit : Nat) :
    subtreeNode root bit + 1 =
      (root + 1) * 2 ^ levelOf bit + (bit + 1 - 2 ^ levelOf bit) := by
  have : 0 < (root + 1) * 2 ^ levelOf bit := Nat.mul_pos (Nat.succ_pos _) (Nat.two_pow_pos _)
  simp only [subtreeNode, Nat.pow_eq]
  omega

@[simp] theorem subtreeNode_zero (root : Nat) : subtreeNode root 0 = root := by
  have := subtreeNode_add_one root 0
  simp only [levelOf_zero, Nat.pow_zero] at this
  omega

theorem subtreeNode_falseChild (root bit : Nat) :
    subtreeNode root (falseChild bit) = falseChild (subtreeNode root bit) := by
  have parent := subtreeNode_add_one root bit
  have node := subtreeNode_add_one root (falseChild bit)
  have low := two_pow_levelOf_le bit
  rw [levelOf_falseChild, Nat.pow_succ, ← Nat.mul_assoc] at node
  simp only [falseChild] at node ⊢
  omega

theorem subtreeNode_trueChild (root bit : Nat) :
    subtreeNode root (trueChild bit) = trueChild (subtreeNode root bit) := by
  have parent := subtreeNode_add_one root bit
  have node := subtreeNode_add_one root (trueChild bit)
  have low := two_pow_levelOf_le bit
  rw [levelOf_trueChild, Nat.pow_succ, ← Nat.mul_assoc] at node
  simp only [trueChild] at node ⊢
  omega

theorem subtreeNode_child (outcome : Bool) (root bit : Nat) :
    subtreeNode root (child outcome bit) = child outcome (subtreeNode root bit) := by
  cases outcome
  · exact subtreeNode_falseChild root bit
  · exact subtreeNode_trueChild root bit

@[simp] theorem levelOf_subtreeNode (root bit : Nat) :
    levelOf (subtreeNode root bit) = levelOf root + levelOf bit := by
  have node := subtreeNode_add_one root bit
  have low := two_pow_levelOf_le bit
  have high := lt_two_pow_levelOf bit
  have rootLow := Nat.mul_le_mul_right (2 ^ levelOf bit) (two_pow_levelOf_le root)
  have rootHigh := Nat.mul_le_mul_right (2 ^ levelOf bit) (lt_two_pow_levelOf root)
  rw [levelOf_eq_iff, node, Nat.add_right_comm, Nat.pow_add, Nat.pow_add]
  rw [Nat.pow_succ] at high
  constructor
  · omega
  · calc (root + 1) * 2 ^ levelOf bit + (bit + 1 - 2 ^ levelOf bit)
        < (root + 1) * 2 ^ levelOf bit + 2 ^ levelOf bit := by omega
      _ = (root + 1 + 1) * 2 ^ levelOf bit := by ring
      _ ≤ 2 ^ (levelOf root + 1) * 2 ^ levelOf bit := rootHigh

/-- Positions in a subtree are in the order of their nodes. -/
theorem subtreeNode_strictMono (root : Nat) : StrictMono (subtreeNode root) := by
  intro a b less
  have nodeA := subtreeNode_add_one root a
  have nodeB := subtreeNode_add_one root b
  have lowA := two_pow_levelOf_le a
  have highA := lt_two_pow_levelOf a
  have lowB := two_pow_levelOf_le b
  have levels : levelOf a ≤ levelOf b := by
    rw [← Nat.lt_succ_iff, levelOf_lt_iff]
    have := lt_two_pow_levelOf b
    omega
  rw [Nat.pow_succ] at highA
  obtain same | below := Nat.eq_or_lt_of_le levels
  · rw [← same] at nodeB lowB
    omega
  · have width : (root + 1) * 2 ^ (levelOf a + 1) ≤ (root + 1) * 2 ^ levelOf b :=
      Nat.mul_le_mul_left _ (Nat.pow_le_pow_right (by decide) below)
    have : 2 ^ levelOf a ≤ (root + 1) * 2 ^ levelOf a := Nat.le_mul_of_pos_left _ (Nat.succ_pos _)
    rw [Nat.pow_succ, ← Nat.mul_assoc] at width
    omega

theorem subtreeNode_inj {root a b : Nat} : subtreeNode root a = subtreeNode root b ↔ a = b :=
  (subtreeNode_strictMono root).injective.eq_iff

/-! ## Within words -/

namespace Bounded

theorem limit_eq : Word.limit = 2 ^ 64 := rfl

theorem add_one_lt_limit {i : Nat} (h : Index.levelOf i < 64) : i + 1 < Word.limit :=
  levelOf_lt_iff.1 h

theorem levelOf_eq {i : Nat} (h : Index.levelOf i < 64) : levelOf i = .ok (Index.levelOf i) := by
  simp [levelOf, Word.add_of_lt (add_one_lt_limit h), Index.levelOf]

theorem treeNodes_eq {levels : Nat} (h : levels < 64) :
    treeNodes levels = .ok (Index.treeNodes levels) := by
  simp [treeNodes, Word.bit_of_lt h, Index.treeNodes]

theorem firstOnLevel_eq {level : Nat} (h : level < 64) :
    firstOnLevel level = .ok (Index.firstOnLevel level) := treeNodes_eq h

theorem nodesOnLevel_eq {level : Nat} (h : level < 64) :
    nodesOnLevel level = .ok (Index.nodesOnLevel level) := Word.bit_of_lt h

theorem falseChild_eq {i : Nat} (h : Index.levelOf i + 1 < 64) :
    falseChild i = .ok (Index.falseChild i) := by
  have fits : Index.falseChild i + 1 < Word.limit := add_one_lt_limit (by simpa using h)
  rw [Index.falseChild] at fits
  simp [falseChild, Index.falseChild, Word.mul_of_lt (show 2 * i < Word.limit by omega),
    Word.add_of_lt (show 2 * i + 1 < Word.limit by omega)]

theorem trueChild_eq {i : Nat} (h : Index.levelOf i + 1 < 64) :
    trueChild i = .ok (Index.trueChild i) := by
  have fits : Index.trueChild i + 1 < Word.limit := add_one_lt_limit (by simpa using h)
  rw [Index.trueChild] at fits
  simp [trueChild, Index.trueChild, Word.mul_of_lt (show 2 * i < Word.limit by omega),
    Word.add_of_lt (show 2 * i + 2 < Word.limit by omega)]

theorem children_eq {i : Nat} (h : Index.levelOf i + 1 < 64) :
    children i = .ok (Index.falseChild i, Index.trueChild i) := by
  simp [children, falseChild_eq h, trueChild_eq h]

theorem subtreeNode_eq {root bit : Nat} (h : Index.levelOf root + Index.levelOf bit < 64) :
    subtreeNode root bit = .ok (Index.subtreeNode root bit) := by
  have node := subtreeNode_add_one root bit
  have fits : Index.subtreeNode root bit + 1 < Word.limit :=
    add_one_lt_limit (by rwa [levelOf_subtreeNode])
  have rootFirst := Index.treeNodes_add_one (Index.levelOf root)
  have bitFirst := Index.treeNodes_add_one (Index.levelOf bit)
  have bothFirst := Index.treeNodes_add_one (Index.levelOf root + Index.levelOf bit)
  have rootLow := two_pow_levelOf_le root
  have bitLow := two_pow_levelOf_le bit
  -- the start of the root's span on the level of the node
  have span : (root - Index.treeNodes (Index.levelOf root)) * 2 ^ Index.levelOf bit
      + 2 ^ (Index.levelOf root + Index.levelOf bit) = (root + 1) * 2 ^ Index.levelOf bit := by
    rw [Nat.pow_add, ← Nat.add_mul]
    congr 1
    omega
  simp only [subtreeNode, levelOf_eq (show Index.levelOf root < 64 by omega),
    levelOf_eq (show Index.levelOf bit < 64 by omega),
    firstOnLevel_eq (show Index.levelOf root < 64 by omega),
    firstOnLevel_eq h, nodesOnLevel_eq (show Index.levelOf bit < 64 by omega),
    treeNodes_eq (show Index.levelOf bit < 64 by omega), ok_bind, Index.firstOnLevel,
    Index.nodesOnLevel, Nat.pow_eq, Word.sub_of_le (treeNodes_levelOf_le root),
    Word.sub_of_le (treeNodes_levelOf_le bit)]
  rw [Word.mul_of_lt (by omega), ok_bind, Word.add_of_lt (by omega), ok_bind,
    Word.add_of_lt (by omega)]
  congr 1
  omega

end Bounded

end Arbor.Index
