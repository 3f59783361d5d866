import Arbor.Proofs.Numbering
import Mathlib.Logic.Function.Iterate

/-!
# Ancestors

The nodes that are met on the way from a node up to the root, one on every level. A descent has its
own nodes as the ancestors of the node it ends at, so the ancestors of a node say how it is reached.

## Main definitions

* `Index.parent`: the node above a node.
* `Index.ancestor`: the node above a node on a given level.

## Main statements

* `Index.child_induction`: every node is the root or the child of a node.
* `Index.ancestor_succ`: the ancestor on the next level is a child.
* `Index.ancestor_add_one`: ancestors are quotients.
* `Index.ancestor_descend`: the ancestors of the node that a descent ends at.
-/

namespace Arbor.Index

/-- The node above `i`. The root is taken for its own parent. -/
def parent (i : Nat) : Nat := (i - 1) / 2

/-- The node on `level` that is met on the way from `i` up to the root, and `i` itself if there is
none. -/
def ancestor (level i : Nat) : Nat := parent^[levelOf i - level] i

@[simp] theorem parent_child (outcome : Bool) (i : Nat) : parent (child outcome i) = i := by
  cases outcome <;> simp only [parent, child, falseChild, trueChild, Bool.false_eq_true,
    ↓reduceIte] <;> omega

theorem exists_child {i : Nat} (pos : 0 < i) : ∃ outcome, i = child outcome (parent i) := by
  refine ⟨i % 2 = 0, ?_⟩
  simp only [parent, child, falseChild, trueChild, decide_eq_true_eq]
  split <;> omega

/-- Every node is the root or the child of a node. -/
@[elab_as_elim]
theorem child_induction {motive : Nat → Prop} (root : motive 0)
    (child : ∀ outcome i, motive i → motive (child outcome i)) (i : Nat) : motive i := by
  induction i using Nat.strong_induction_on with
  | _ i ih =>
    rcases Nat.eq_zero_or_pos i with rfl | pos
    · exact root
    · obtain ⟨outcome, same⟩ := exists_child pos
      rw [same]
      apply child
      apply ih
      conv_rhs => rw [same]
      exact lt_child outcome (parent i)

theorem ancestor_of_le {level i : Nat} (low : levelOf i ≤ level) : ancestor level i = i := by
  rw [ancestor, Nat.sub_eq_zero_of_le low, Function.iterate_zero_apply]

@[simp] theorem ancestor_levelOf (i : Nat) : ancestor (levelOf i) i = i :=
  ancestor_of_le (Nat.le_refl _)

theorem ancestor_child {level i : Nat} (above : level ≤ levelOf i) (outcome : Bool) :
    ancestor level (child outcome i) = ancestor level i := by
  rw [ancestor, levelOf_child, Nat.succ_sub above, Function.iterate_succ_apply, parent_child,
    ancestor]

theorem levelOf_ancestor {level i : Nat} (above : level ≤ levelOf i) :
    levelOf (ancestor level i) = level := by
  induction i using child_induction with
  | root =>
    obtain rfl : level = 0 := by simpa using above
    rfl
  | child outcome i ih =>
    rw [levelOf_child] at above
    rcases Nat.le_succ_iff.1 above with above | rfl
    · rw [ancestor_child above, ih above]
    · rw [ancestor_of_le (levelOf_child outcome i).le, levelOf_child]

@[simp] theorem ancestor_zero (i : Nat) : ancestor 0 i = 0 := by
  have root := lt_two_pow_levelOf (ancestor 0 i)
  rw [levelOf_ancestor (Nat.zero_le _)] at root
  omega

theorem ancestor_ancestor {low high i : Nat} (le : low ≤ high) (above : high ≤ levelOf i) :
    ancestor low (ancestor high i) = ancestor low i := by
  induction i using child_induction with
  | root =>
    obtain rfl : high = 0 := by simpa using above
    rfl
  | child outcome i ih =>
    rw [levelOf_child] at above
    rcases Nat.le_succ_iff.1 above with above | rfl
    · rw [ancestor_child above, ancestor_child (le.trans above), ih above]
    · rw [ancestor_of_le (levelOf_child outcome i).le]

/-- On the way down from an ancestor one of its children comes next. -/
theorem ancestor_succ {level i : Nat} (above : level < levelOf i) :
    ∃ outcome, ancestor (level + 1) i = child outcome (ancestor level i) := by
  induction i using child_induction with
  | root => simp at above
  | child outcome i ih =>
    rw [levelOf_child] at above
    rcases Nat.lt_succ_iff_lt_or_eq.1 above with above | rfl
    · rw [ancestor_child above, ancestor_child above.le]
      exact ih above
    · refine ⟨outcome, ?_⟩
      rw [ancestor_of_le (levelOf_child outcome i).le, ancestor_child (Nat.le_refl _),
        ancestor_levelOf]

/-- Counted from one, going up by a level is halving. -/
theorem ancestor_add_one {level i : Nat} (above : level ≤ levelOf i) :
    ancestor level i + 1 = (i + 1) / 2 ^ (levelOf i - level) := by
  induction i using child_induction with
  | root =>
    obtain rfl : level = 0 := by simpa using above
    rfl
  | child outcome i ih =>
    rw [levelOf_child] at above ⊢
    rcases Nat.le_succ_iff.1 above with above | rfl
    · have half : (child outcome i + 1) / 2 = i + 1 := by
        have := parent_child outcome i
        have := lt_child outcome i
        rw [parent] at *
        omega
      rw [ancestor_child above, ih above, Nat.succ_sub above, Nat.pow_succ',
        ← Nat.div_div_eq_div_mul, half]
    · rw [ancestor_of_le (levelOf_child outcome i).le]
      simp

/-! ## Descents -/

theorem ancestor_of_descend (outcome : Nat → Bool) (levels node : Nat) :
    ancestor (levelOf node) (descend outcome levels node) = node := by
  induction levels with
  | zero => exact ancestor_levelOf node
  | succ levels ih =>
    rw [descend_last, ancestor_child (by simp), ih]

/-- The nodes of a descent are the ancestors of the node it ends at. -/
theorem ancestor_descend (outcome : Nat → Bool) {level levels : Nat} (node : Nat)
    (le : level ≤ levels) : ancestor (levelOf node + level) (descend outcome levels node) =
      descend outcome level node := by
  obtain ⟨rest, rfl⟩ := Nat.exists_eq_add_of_le le
  rw [descend_add, ← levelOf_descend outcome level node, ancestor_of_descend]

end Arbor.Index
