import Arbor.Proofs.Dyadic
import Arbor.Proofs.Tree.Generate

/-!
# Trees that bisect the unit interval

All thresholds of `Tree.bisection` are exact, so that a walk is a binary search: it halves the share
of the unit interval that it is in until it is at the share of a leaf. Shares contain their right
ends, and an input that is outside the interval ends at an outermost leaf.

## Main definitions

* `Tree.Share`: the share that a number is in.
* `Tree.Bisected`: the leaf that a float ends at.

## Main statements

* `Tree.Share.half`: one comparison finds the half of a share.
* `Tree.value?_bias`: the exact thresholds.
* `Tree.Bisects.exists_share`: a walk stays in the share of its input.
* `Tree.bisection_exact`: the leaf of every float.
-/

namespace Arbor.Tree

open Index
open Arbor.Float32 (value?)

variable {level offset : Nat} {v : ℚ}

/-! ## Shares of the unit interval -/

/-- The unit interval is cut into `2 ^ level` shares, from left to right, and whatever is outside
goes to an outermost one. This is the share that a number is in. -/
structure Share (level offset : Nat) (v : ℚ) : Prop where
  lt : offset < 2 ^ level
  above : offset = 0 ∨ offset < v * 2 ^ level
  upto : offset + 1 = 2 ^ level ∨ v * 2 ^ level ≤ offset + 1

namespace Share

theorem whole (v : ℚ) : Share 0 0 v := ⟨by simp, .inl rfl, .inl rfl⟩

/-- A comparison with the middle of a share finds the half of it. -/
theorem half (share : Share level offset v) : Share (level + 1)
    (2 * offset + ((2 * offset + 1 : ℚ) / 2 ^ (level + 1) < v : Bool).toNat) v := by
  obtain ⟨lt, above, upto⟩ := share
  have scale : v * 2 ^ (level + 1) = 2 * (v * 2 ^ level) := by ring
  by_cases right : (2 * offset + 1 : ℚ) / 2 ^ (level + 1) < v
  · have middle : 2 * offset + 1 < 2 * (v * 2 ^ level) := by
      rwa [div_lt_iff₀ (by positivity), scale] at right
    simp only [right, decide_true, Bool.toNat_true]
    refine ⟨by omega, .inr ?_, upto.imp (by omega) fun le => ?_⟩ <;> push_cast <;> linarith
  · have middle : 2 * (v * 2 ^ level) ≤ 2 * offset + 1 := by
      rwa [div_lt_iff₀ (by positivity), scale, not_lt] at right
    simp only [right, decide_false, Bool.toNat_false, add_zero]
    refine ⟨by omega, above.imp (by omega) fun less => ?_, .inr ?_⟩ <;> push_cast <;> linarith

theorem eq_zero (share : Share level offset v) (below : v ≤ 0) : offset = 0 := by
  refine share.above.resolve_right fun less => ?_
  have scaled : v * 2 ^ level ≤ 0 := mul_nonpos_of_nonpos_of_nonneg below (by positivity)
  have : (0 : ℚ) ≤ offset := Nat.cast_nonneg _
  linarith

theorem add_one_eq_last (share : Share level offset v) (above : 1 < v) :
    offset + 1 = 2 ^ level := by
  refine share.upto.resolve_right fun le => ?_
  have scaled : 2 ^ level < v * 2 ^ level := lt_mul_of_one_lt_left (by positivity) above
  have room : (offset + 1 : ℚ) ≤ 2 ^ level := by exact_mod_cast share.lt
  linarith

theorem lt_scaled (share : Share level offset v) (pos : 0 < v) : offset < v * 2 ^ level := by
  rcases share.above with zero | less
  · rw [zero, Nat.cast_zero]
    positivity
  · exact less

theorem scaled_le (share : Share level offset v) (le : v ≤ 1) : v * 2 ^ level ≤ offset + 1 := by
  rcases share.upto with last | le'
  · have : (offset + 1 : ℚ) = 2 ^ level := by exact_mod_cast last
    rw [this]
    exact mul_le_of_le_one_left (by positivity) le
  · exact le'

/-- Inside the interval a share contains its right end and not its left end. -/
theorem ceil_eq (share : Share level offset v) (pos : 0 < v) (le : v ≤ 1) :
    ⌈v * 2 ^ level⌉₊ = offset + 1 := by
  rw [Nat.ceil_eq_iff (Nat.succ_ne_zero offset)]
  exact ⟨share.lt_scaled pos, by exact_mod_cast share.scaled_le le⟩

/-- A number at an end of shares is in the share before it. -/
theorem floor_eq_add_one (share : Share level offset v) (pos : 0 < v) (le : v ≤ 1) {k : Nat}
    (whole : v * 2 ^ level = k) : ⌊v * 2 ^ level⌋₊ = offset + 1 := by
  rw [← share.ceil_eq pos le, whole, Nat.floor_natCast, Nat.ceil_natCast]

/-- Shares with their left ends differ from shares with their right ends at the ends only. -/
theorem eq_floor_iff (share : Share level offset v) (nonneg : 0 ≤ v) (less : v < 1) :
    offset = ⌊v * 2 ^ level⌋₊ ↔ v = 0 ∨ ∀ k : ℤ, v * 2 ^ level ≠ k := by
  rcases nonneg.eq_or_lt with rfl | pos
  · simp [share.eq_zero le_rfl]
  constructor
  · intro same
    refine .inr fun k whole => ?_
    have nonneg : (0 : ℚ) ≤ k := whole ▸ by positivity
    obtain ⟨n, rfl⟩ := Int.eq_ofNat_of_zero_le (Int.cast_nonneg_iff.1 nonneg)
    have := share.floor_eq_add_one pos less.le (k := n) (by exact_mod_cast whole)
    omega
  · rintro (rfl | between)
    · exact absurd pos (lt_irrefl _)
    · refine ((Nat.floor_eq_iff (by positivity)).2 ⟨(share.lt_scaled pos).le, ?_⟩).symm
      exact lt_of_le_of_ne (share.scaled_le less.le) (by exact_mod_cast between (offset + 1))

end Share

/-! ## Thresholds -/

/-- The threshold of a node is exactly the middle of its share. -/
theorem value?_bias {index : Nat} (deep : level < 24) (lt : offset < 2 ^ level)
    (number : index + 1 = 2 ^ level + offset) :
    value? (bisectionNode index).bias = some ((2 * offset + 1 : ℚ) / 2 ^ (level + 1)) := by
  have double := Nat.pow_succ 2 level
  have onLevel : levelOf index = level := levelOf_eq_iff.2 ⟨by omega, by omega⟩
  have fromFirst : index - firstOnLevel level = offset := by
    have first : firstOnLevel level + 1 = 2 ^ level := treeNodes_add_one level
    omega
  -- numerator, denominator and quotient all have at most 24 digits
  have small : 2 ^ (level + 1) ≤ 2 ^ 24 := Nat.pow_le_pow_right two_pos deep
  have positive : 0 < 2 * offset + 1 := by omega
  obtain ⟨numerator, hn⟩ := @Arbor.Float32.exists_value (2 * offset + 1) 0 positive (by omega)
    (by decide) (by decide)
  obtain ⟨denominator, hd⟩ := @Arbor.Float32.exists_value 1 (level + 1 : Nat) one_pos (by decide)
    (by omega) (by omega)
  obtain ⟨middle, hm⟩ := @Arbor.Float32.exists_value (2 * offset + 1) (-(level + 1 : Nat)) positive
    (by omega) (by omega) (by omega)
  rw [zpow_zero, mul_one] at hn
  rw [Nat.cast_one, one_mul, zpow_natCast] at hd
  rw [zpow_neg, zpow_natCast, ← div_eq_mul_inv] at hm
  have quotient : (bisectionNode index).bias = middle := by
    have bias : (bisectionNode index).bias = (2 * offset + 1).toUInt64.toFloat32 /
        (2 ^ (level + 1)).toUInt64.toFloat32 := by
      rw [bisectionNode, onLevel, fromFirst]
      rfl
    rw [bias, Arbor.Float32.natCast_eq positive (by omega) hn,
      Arbor.Float32.natCast_eq (Nat.two_pow_pos (level + 1)) (by omega) (by exact_mod_cast hd)]
    exact Arbor.Float32.div_eq_of_value hn hd (by positivity) (by positivity) hm
  rw [quotient, hm]
  push_cast
  rfl

/-- A number that stands for a float: it is above the same thresholds, and it is the value of the
float, if there is one. -/
structure Stands (x : Float32) (v : ℚ) : Prop where
  lt_iff : ∀ threshold middle, value? threshold = some middle → 0 < middle → middle < 1 →
    (threshold < x ↔ middle < v)
  value : value? x = some v ∨ value? x = none ∧
    (x = Float32.nan ∧ v ≤ 0 ∨ x = Float32.inf ∧ 1 < v ∨ x = -Float32.inf ∧ v ≤ 0)

theorem exists_stands (x : Float32) : ∃ v, Stands x v := by
  rcases value : value? x with _ | v
  · rcases Arbor.Float32.eq_of_value?_none value with rfl | rfl | rfl
    · refine ⟨0, fun threshold middle _ pos _ => ?_, .inr ⟨value, .inl ⟨rfl, le_rfl⟩⟩⟩
      exact iff_of_false (Arbor.Float32.not_lt_nan threshold) pos.not_gt
    · refine ⟨2, fun threshold middle known _ less => ?_,
        .inr ⟨value, .inr (.inl ⟨rfl, one_lt_two⟩)⟩⟩
      exact iff_of_true (Arbor.Float32.lt_inf known) (less.trans one_lt_two)
    · refine ⟨0, fun threshold middle known pos _ => ?_, .inr ⟨value, .inr (.inr ⟨rfl, le_rfl⟩)⟩⟩
      exact iff_of_false (Arbor.Float32.not_lt_neg_inf known) pos.not_gt
  · exact ⟨v, fun _ _ known _ _ => Arbor.Float32.lt_iff_value_lt known value, .inl value⟩

theorem Stands.eq_of_value {x : Float32} (stands : Stands x v) {w : ℚ} (value : value? x = some w) :
    w = v := by
  rcases stands.value with finite | ⟨valueless, -⟩
  · exact Option.some.inj (value.symm.trans finite)
  · exact absurd (value.symm.trans valueless) (by simp)

/-! ## Walks -/

section

variable {tree : Tree} {x : Float32}

def Bisects (tree : Tree) : Prop :=
  ∀ index node, tree.nodes[index]? = some node → node = bisectionNode index

theorem Bisects.requiredFeatures_le (bisects : tree.Bisects) :
    tree.requiredFeatures ≤ #[x].size := by
  refine tree.maxFeature_lt one_pos fun node member => ?_
  obtain ⟨index, here⟩ := Array.getElem?_of_mem member
  rw [bisects index node here]
  exact one_pos

theorem Bisects.outcome_eq (bisects : tree.Bisects) (shallow : tree.depth ≤ 24)
    (stands : Stands x v) (inner : level < tree.depth) (lt : offset < 2 ^ level) {index : Nat}
    (number : index + 1 = 2 ^ level + offset) :
    tree.outcome #[x] index = ((2 * offset + 1 : ℚ) / 2 ^ (level + 1) < v : Bool) := by
  have double := Nat.pow_succ 2 level
  have onLevel : levelOf index = level := levelOf_eq_iff.2 ⟨by omega, by omega⟩
  obtain ⟨node, -, here, evaluated⟩ :=
    tree.exists_node (onLevel ▸ inner) bisects.requiredFeatures_le
  obtain rfl := bisects index node here
  have less : (2 * offset + 1 : ℚ) < 2 ^ (level + 1) := by
    have : 2 * offset + 1 < 2 ^ (level + 1) := by omega
    exact_mod_cast this
  have compared := stands.lt_iff _ _ (value?_bias (by omega) lt number) (by positivity)
    ((div_lt_one (by positivity)).2 less)
  simp only [← compared]
  exact (Except.ok.inj evaluated).symm

/-- A walk stays in the share of its input. -/
theorem Bisects.exists_share (bisects : tree.Bisects) (shallow : tree.depth ≤ 24)
    (stands : Stands x v) (le : level ≤ tree.depth) :
    ∃ offset, descend (tree.outcome #[x]) level 0 + 1 = 2 ^ level + offset ∧
      Share level offset v := by
  induction level with
  | zero => exact ⟨0, by simp, .whole v⟩
  | succ level ih =>
    obtain ⟨offset, number, share⟩ := ih (by omega)
    refine ⟨_, ?_, share.half⟩
    rw [descend_last, child_add_one, number, bisects.outcome_eq shallow stands le share.lt number]
    ring

end

theorem bisection_eq_ok {depth : Nat} (pos : 0 < depth) (shallow : depth ≤ maxTreeDepth) :
    ∃ tree, bisection depth = .ok tree ∧ tree.depth = depth ∧ tree.Bisects := by
  obtain ⟨tree, made, same, nodes⟩ := generated_ofFn pos shallow bisectionNode
  refine ⟨tree, ?_, same, nodes⟩
  rw [bisection, plannedSize_eq shallow, ok_bind, made]

/-- The leaf that a float ends at. The leaves of a tree with `2 ^ depth - 1` nodes follow its nodes,
and they are shares of the unit interval from left to right. -/
structure Bisected (depth : Nat) (x : Float32) (leaf : Nat) : Prop where
  /-- Inside the interval the leaf is found by rounding up. -/
  inside : ∀ v, value? x = some v → 0 < v → v ≤ 1 → leaf = 2 ^ depth - 1 + ⌈v * 2 ^ depth⌉₊ - 1
  below : ∀ v, value? x = some v → v ≤ 0 → leaf = 2 ^ depth - 1
  above : ∀ v, value? x = some v → 1 < v → leaf = 2 ^ depth - 1 + 2 ^ depth - 1
  /-- Floats without a value are infinite or not a number, which is not above any threshold. -/
  valueless : value? x = none → x = Float32.nan ∧ leaf = 2 ^ depth - 1 ∨
    x = Float32.inf ∧ leaf = 2 ^ depth - 1 + 2 ^ depth - 1 ∨
    x = -Float32.inf ∧ leaf = 2 ^ depth - 1
  /-- Rounding down finds the leaf too, except at the ends of shares. -/
  floor_iff : ∀ v, value? x = some v → 0 ≤ v → v < 1 →
    (leaf = 2 ^ depth - 1 + ⌊v * 2 ^ depth⌋₊ ↔ v = 0 ∨ ∀ k : ℤ, v * 2 ^ depth ≠ k)
  /-- At the end of a share rounding down finds the leaf after it. -/
  floor_eq : ∀ v (k : Nat), value? x = some v → 0 < v → v < 1 → v * 2 ^ depth = k →
    2 ^ depth - 1 + ⌊v * 2 ^ depth⌋₊ = leaf + 1

theorem Share.bisected {depth : Nat} {x : Float32} (share : Share depth offset v)
    (stands : Stands x v) : Bisected depth x (2 ^ depth - 1 + offset) where
  inside w value pos le := by
    obtain rfl := stands.eq_of_value value
    have := share.ceil_eq pos le
    omega
  below w value le := by
    obtain rfl := stands.eq_of_value value
    have := share.eq_zero le
    omega
  above w value less := by
    obtain rfl := stands.eq_of_value value
    have := share.add_one_eq_last less
    omega
  valueless none := by
    have known := stands.value.resolve_left (by simp [none])
    have low : v ≤ 0 → offset = 0 := share.eq_zero
    have high : 1 < v → offset + 1 = 2 ^ depth := share.add_one_eq_last
    rcases known.2 with ⟨rfl, le⟩ | ⟨rfl, less⟩ | ⟨rfl, le⟩
    · exact .inl ⟨rfl, by have := low le; omega⟩
    · exact .inr (.inl ⟨rfl, by have := high less; omega⟩)
    · exact .inr (.inr ⟨rfl, by have := low le; omega⟩)
  floor_iff w value nonneg less := by
    obtain rfl := stands.eq_of_value value
    rw [Nat.add_left_cancel_iff, share.eq_floor_iff nonneg less]
  floor_eq w k value pos less whole := by
    obtain rfl := stands.eq_of_value value
    rw [share.floor_eq_add_one pos less.le whole, add_assoc]

/-- The leaf of every float in a tree that bisects the unit interval. -/
theorem bisection_exact {depth : Nat} (pos : 0 < depth) (shallow : depth ≤ 24) :
    ∃ tree, bisection depth = .ok tree ∧ tree.depth = depth ∧
      ∀ x, ∃ leaf, tree.interpret #[x] = .ok leaf ∧ Bisected depth x leaf := by
  obtain ⟨tree, made, rfl, bisects⟩ := bisection_eq_ok pos (shallow.trans (by decide))
  refine ⟨tree, made, rfl, fun x => ?_⟩
  obtain ⟨v, stands⟩ := exists_stands x
  obtain ⟨offset, number, share⟩ := bisects.exists_share shallow stands le_rfl
  refine ⟨_, tree.interpret_eq bisects.requiredFeatures_le, ?_⟩
  have leaf : descend (tree.outcome #[x]) tree.depth 0 = 2 ^ tree.depth - 1 + offset := by
    have := Nat.two_pow_pos tree.depth
    omega
  rw [leaf]
  exact share.bisected stands

/-- In the deepest tree with exact thresholds, the largest float below one is at the end of the last
share but one. -/
theorem bisection_exact_deepest : 0 < 24 ∧ 24 ≤ 24 ∧ ∃ tree, bisection 24 = .ok tree ∧
    tree.interpret #[Float32.ofBits 0x3F7FFFFF] = .ok (2 ^ 25 - 3) ∧
    tree.interpret #[Float32.nan] = .ok (2 ^ 24 - 1) := by
  obtain ⟨tree, made, -, leaves⟩ := @bisection_exact 24 (by decide) (by decide)
  refine ⟨by decide, by decide, tree, made, ?_, ?_⟩
  · obtain ⟨leaf, ends, bisected⟩ := leaves (Float32.ofBits 0x3F7FFFFF)
    have size : Binary.ofFloat32? (Float32.ofBits 0x3F7FFFFF) =
        some (false, ⟨2 ^ 24 - 1, -24⟩) := by decide +kernel
    have value : value? (Float32.ofBits 0x3F7FFFFF) = some (((2 ^ 24 - 1 : Nat) : ℚ) / 2 ^ 24) := by
      rw [value?, size]
      norm_num [Arbor.Float32.signed, Binary.val]
    rw [ends, bisected.inside _ value (by norm_num) (by norm_num),
      div_mul_cancel₀ _ (by positivity), Nat.ceil_natCast]
    rfl
  · obtain ⟨leaf, ends, bisected⟩ := leaves Float32.nan
    rcases bisected.valueless (by decide +kernel) with ⟨-, rfl⟩ | ⟨wrong, -⟩ | ⟨wrong, -⟩
    · exact ends
    · exact absurd wrong (by decide +kernel)
    · exact absurd wrong (by decide +kernel)

end Arbor.Tree
