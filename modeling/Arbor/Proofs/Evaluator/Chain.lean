import Arbor.Proofs.Evaluator.Emission
import Mathlib.Data.List.Chain

/-!
# Chains of strategies

How many levels are left before each strategy depends on the selector alone, not on the tree and not
on the node. So a selector runs through the same chain below every node. Emission succeeds if the
chain uses up all levels. If it gets stuck before, emission fails where the first site with as many
levels left is visited, and this is the rightmost one, since true branches come first.

## Main definitions

* `Selector.Fits`: the strategy for some levels can be emitted.
* `Selector.stages`, `Selector.leftover`: the chain of a selector and where it ends.
* `Selector.Exhausts`: the strategies of a selector use up some levels exactly.
* `Index.rightmost`: the last node some levels below a node.

## Main statements

* `Selector.exhausts_iff`: a chain uses up its levels if nothing is left over.
* `Selector.isChain_stages`: such a chain goes down to zero.
* `Selector.uniform_exhausts`: switches of one depth use up every multiple of it.
* `emit_of_exhausts`, `emit_of_leftover`: what is emitted, or the failure.
-/

namespace Arbor

/-- Some of the levels that are left, but not more than a switch may have, are consumed by the
strategy that is picked for them. -/
def Selector.Fits (selector : Selector) (remaining : Nat) : Prop :=
  0 < (selector remaining).levels ∧ (selector remaining).levels ≤ remaining ∧
    (selector remaining).levels ≤ maxSwitchDepth

/-- The strategies that a selector picks, one after the other, use up these levels exactly. -/
inductive Selector.Exhausts (selector : Selector) : Nat → Prop
  | done : Exhausts selector 0
  | step {remaining : Nat}
    (fits : 0 < (selector remaining).levels ∧ (selector remaining).levels ≤ remaining ∧
      (selector remaining).levels ≤ maxSwitchDepth)
    (rest : Exhausts selector (remaining - (selector remaining).levels)) :
    Exhausts selector remaining

namespace Selector

variable {selector : Selector} {remaining : Nat}

instance (selector : Selector) (remaining : Nat) : Decidable (selector.Fits remaining) :=
  inferInstanceAs (Decidable (_ ∧ _ ∧ _))

theorem Fits.sub_lt (fits : selector.Fits remaining) :
    remaining - (selector remaining).levels < remaining :=
  Nat.sub_lt (Nat.lt_of_lt_of_le fits.1 fits.2.1) fits.1

theorem Fits.pos (fits : selector.Fits remaining) : 0 < remaining :=
  Nat.lt_of_lt_of_le fits.1 fits.2.1

theorem fits_of_switch {levels : Nat}
    (picked : selector (levels + remaining) = .subtreeSwitch levels)
    (narrow : 0 < levels ∧ levels ≤ maxSwitchDepth) : selector.Fits (levels + remaining) := by
  simp only [Fits, picked, Strategy.levels]
  omega

theorem fits_of_branch (picked : selector (remaining + 1) = .ifThenElse) :
    selector.Fits (remaining + 1) := by
  simp [Fits, picked, Strategy.levels, maxSwitchDepth]

/-- The levels that are left before each strategy that is emitted, from `remaining` downwards. -/
def stages (selector : Selector) (remaining : Nat) : List Nat :=
  if _fits : selector.Fits remaining then
    remaining :: stages selector (remaining - (selector remaining).levels)
  else []
termination_by remaining
decreasing_by exact _fits.sub_lt

/-- The levels that are left where the next strategy does not fit, and none if all are used up. -/
def leftover (selector : Selector) (remaining : Nat) : Nat :=
  if _fits : selector.Fits remaining then
    leftover selector (remaining - (selector remaining).levels)
  else remaining
termination_by remaining
decreasing_by exact _fits.sub_lt

theorem stages_of_fits (fits : selector.Fits remaining) : selector.stages remaining =
    remaining :: selector.stages (remaining - (selector remaining).levels) := by
  rw [stages, dif_pos fits]

@[simp] theorem stages_zero (selector : Selector) : selector.stages 0 = [] := by
  rw [stages, dif_neg fun fits => Nat.lt_irrefl 0 fits.pos]

theorem leftover_of_fits (fits : selector.Fits remaining) : selector.leftover remaining =
    selector.leftover (remaining - (selector remaining).levels) := by
  rw [leftover, dif_pos fits]

theorem leftover_of_not_fits (misfit : ¬ selector.Fits remaining) :
    selector.leftover remaining = remaining := by
  rw [leftover, dif_neg misfit]

@[simp] theorem leftover_zero (selector : Selector) : selector.leftover 0 = 0 :=
  leftover_of_not_fits fun fits => Nat.lt_irrefl 0 fits.pos

theorem leftover_le (selector : Selector) (remaining : Nat) :
    selector.leftover remaining ≤ remaining := by
  fun_induction leftover selector remaining with
  | case1 remaining fits ih => exact ih.trans fits.sub_lt.le
  | case2 remaining misfit => exact Nat.le_refl remaining

theorem le_of_mem_stages {stage : Nat} (member : stage ∈ selector.stages remaining) :
    stage ≤ remaining := by
  fun_induction stages selector remaining with
  | case1 remaining fits ih =>
    rcases List.mem_cons.1 member with rfl | later
    · exact Nat.le_refl stage
    · exact (ih later).trans fits.sub_lt.le
  | case2 remaining misfit => simp at member

theorem exhausts_iff : selector.Exhausts remaining ↔ selector.leftover remaining = 0 := by
  constructor
  · intro exhausts
    induction exhausts with
    | done => exact leftover_zero selector
    | step fits _ ih => exact (leftover_of_fits fits).trans ih
  · intro spent
    fun_induction leftover selector remaining with
    | case1 remaining fits ih => exact .step fits (ih spent)
    | case2 remaining misfit => exact spent ▸ .done

theorem head_stages (exhausts : selector.Exhausts remaining) :
    (selector.stages remaining ++ [0]).head? = some remaining := by
  cases exhausts with
  | done => simp
  | step fits rest => simp [stages_of_fits fits]

/-- A chain that uses up its levels goes down to zero by the levels that are consumed. -/
theorem isChain_stages (exhausts : selector.Exhausts remaining) :
    (selector.stages remaining ++ [0]).IsChain fun left next =>
      left = next + (selector left).levels ∧ next < left := by
  induction exhausts with
  | done => simp
  | @step remaining fits rest ih =>
    have next := head_stages rest
    have less := Fits.sub_lt fits
    have within := fits.2.1
    rw [stages_of_fits fits, List.cons_append, List.isChain_cons]
    refine ⟨?_, ih⟩
    intro left first
    obtain rfl := Option.some.inj (next.symm.trans first)
    omega

theorem uniform_exhausts {switchDepth : Nat} (pos : 0 < switchDepth)
    (narrow : switchDepth ≤ maxSwitchDepth) (count : Nat) :
    (uniform switchDepth).Exhausts (switchDepth * count) := by
  induction count with
  | zero => exact .done
  | succ count ih =>
    refine .step ⟨pos, Nat.le_mul_of_pos_right _ (Nat.succ_pos count), narrow⟩ ?_
    simpa [uniform, Strategy.levels, Nat.mul_succ] using ih

end Selector

namespace Index

def rightmost (levels node : Nat) : Nat := (node + 2) * 2 ^ levels - 2

@[simp] theorem rightmost_zero (node : Nat) : rightmost 0 node = node := by simp [rightmost]

theorem rightmost_root (levels : Nat) : rightmost levels 0 = 2 ^ (levels + 1) - 2 := by
  rw [rightmost, Nat.zero_add, Nat.pow_succ']

theorem rightmost_one (node : Nat) : rightmost 1 node = trueChild node := by
  rw [rightmost, trueChild]
  omega

theorem rightmost_add (first second node : Nat) :
    rightmost (first + second) node = rightmost second (rightmost first node) := by
  have : 2 ≤ (node + 2) * 2 ^ first :=
    (Nat.le_add_left 2 node).trans (Nat.le_mul_of_pos_right _ (Nat.two_pow_pos _))
  rw [rightmost, rightmost, rightmost, Nat.sub_add_cancel this, Nat.pow_add, Nat.mul_assoc]

/-- From right to left, the rightmost node comes first. -/
theorem exists_reverse_bottom (levels node : Nat) :
    ∃ others, (bottom levels node).reverse = rightmost levels node :: others := by
  obtain ⟨width, full⟩ := Nat.exists_eq_succ_of_ne_zero (Nat.two_pow_pos levels).ne'
  refine ⟨(List.range' ((node + 1) * 2 ^ levels - 1) width).reverse, ?_⟩
  have last : (node + 1) * 2 ^ levels - 1 + width = rightmost levels node := by
    have parts : (node + 2) * 2 ^ levels = (node + 1) * 2 ^ levels + 2 ^ levels :=
      Nat.succ_mul (node + 1) _
    have : 0 < (node + 1) * 2 ^ levels := Nat.mul_pos (Nat.succ_pos _) (Nat.two_pow_pos _)
    rw [rightmost]
    omega
  rw [bottom, full, List.range'_1_concat, ← full, last, List.reverse_append]
  rfl

end Index

namespace Evaluator

open Index

variable {tree : Tree} {selector : Selector}

/-- Code is emitted for levels that the selector uses up, by induction on its strategies. -/
theorem emit_of_exhausts {remaining root : Nat} (symbol : String)
    (exhausts : selector.Exhausts remaining) (more : 0 < remaining)
    (deep : levelOf root + remaining ≤ tree.depth) :
    ∃ code, emit tree selector symbol remaining root = .ok code := by
  induction exhausts generalizing root with
  | done => omega
  | @step remaining fits _ ih =>
    obtain ⟨pos, within, narrow⟩ := fits
    have depth := tree.depth_le
    simp only [maxTreeDepth, maxSwitchDepth] at depth narrow
    -- below the levels of the strategy nothing is left, or the induction hypothesis applies
    have continues : ∀ node, levelOf node = levelOf root + (selector remaining).levels →
        ∃ code, (if remaining - (selector remaining).levels = 0 then .ok (.goto node)
          else emit tree selector symbol (remaining - (selector remaining).levels) node) =
            .ok code := by
      intro node level
      split
      · exact ⟨_, rfl⟩
      · exact ih (by omega) (by omega)
    rw [emit, dif_pos ⟨pos, within, narrow⟩]
    cases strategy : selector remaining with
    | subtreeSwitch levels =>
      rw [strategy] at continues within narrow
      change levels ≤ remaining at within
      change levels ≤ 4 at narrow
      obtain ⟨jump, hjump, covers⟩ := @Jump.of_eq tree root levels (by omega) (by omega)
      obtain ⟨arms, harms⟩ := exists_mapM_eq_ok fun exit (member : exit ∈ jump.exits) => by
        rw [covers.exits_eq, List.mem_reverse] at member
        exact continues exit (levelOf_of_mem_bottom member)
      exact ⟨.switch jump.tests jump.table arms, by simp [hjump, harms]⟩
    | ifThenElse =>
      rw [strategy] at continues
      obtain ⟨onTrue, htrue⟩ := continues (trueChild root) (levelOf_trueChild root)
      obtain ⟨onFalse, hfalse⟩ := continues (falseChild root) (levelOf_falseChild root)
      have inside : root < tree.nodes.size := tree.lt_size_iff.2 (by omega)
      refine ⟨.branch tree.nodes[root] onTrue onFalse, ?_⟩
      simp [Tree.node, Array.getElem?_eq_getElem inside,
        Bounded.children_eq (show levelOf root + 1 < 64 by omega), htrue, hfalse]

/-- The rightmost node below a strategy is visited first, so a failure there is the failure of the
whole emission. -/
theorem emit_of_first {remaining root : Nat} {symbol : String} {failure : Failure}
    (fits : selector.Fits remaining) (deep : levelOf root + remaining ≤ tree.depth)
    (more : remaining - (selector remaining).levels ≠ 0)
    (fails : emit tree selector symbol (remaining - (selector remaining).levels)
      (rightmost (selector remaining).levels root) = .error failure) :
    emit tree selector symbol remaining root = .error failure := by
  have depth := tree.depth_le
  obtain ⟨pos, within, narrow⟩ := fits
  simp only [maxTreeDepth, maxSwitchDepth] at depth narrow
  rw [emit, dif_pos ⟨pos, within, narrow⟩]
  cases strategy : selector remaining with
  | subtreeSwitch levels =>
    simp only [strategy, Strategy.levels] at within narrow more fails
    obtain ⟨jump, hjump, covers⟩ := @Jump.of_eq tree root levels (by omega) (by omega)
    obtain ⟨others, first⟩ := exists_reverse_bottom levels root
    simp [Strategy.levels, hjump, covers.exits_eq, first, more, fails]
  | ifThenElse =>
    simp only [strategy, Strategy.levels, rightmost_one] at more fails
    have inside : root < tree.nodes.size := tree.lt_size_iff.2 (by omega)
    simp [Strategy.levels, Tree.node, Array.getElem?_eq_getElem inside,
      Bounded.children_eq (show levelOf root + 1 < 64 by omega), more, fails]

theorem levelOf_rightmost (levels node : Nat) :
    levelOf (rightmost levels node) = levelOf node + levels := by
  obtain ⟨others, first⟩ := exists_reverse_bottom levels node
  apply levelOf_of_mem_bottom
  rw [← List.mem_reverse, first]
  exact List.mem_cons_self

/-- If levels are left over, emission fails at the rightmost node with as many levels left. -/
theorem emit_of_leftover {remaining root : Nat} (symbol : String)
    (stuck : selector.leftover remaining ≠ 0) (deep : levelOf root + remaining ≤ tree.depth) :
    emit tree selector symbol remaining root =
      .error (.error (.emit symbol (.misfit (selector (selector.leftover remaining))
        (selector.leftover remaining)
        (rightmost (remaining - selector.leftover remaining) root)))) := by
  fun_induction Selector.leftover selector remaining generalizing root with
  | case1 remaining fits ih =>
    have rest := selector.leftover_le (remaining - (selector remaining).levels)
    have within := fits.2.1
    have below := levelOf_rightmost (selector remaining).levels root
    refine emit_of_first fits deep ?_ ?_
    · omega
    · rw [ih stuck (by omega), ← rightmost_add]
      congr 6
      omega
  | case2 remaining misfit =>
    unfold Selector.Fits at misfit
    rw [emit, dif_neg misfit, Nat.sub_self, rightmost_zero]

theorem exhausts_of_emit {remaining root : Nat} {symbol : String} {code : Code}
    (emitted : emit tree selector symbol remaining root = .ok code)
    (deep : levelOf root + remaining ≤ tree.depth) : selector.Exhausts remaining := by
  by_contra stuck
  rw [Selector.exhausts_iff] at stuck
  rw [emit_of_leftover symbol stuck deep] at emitted
  cases emitted

end Evaluator

end Arbor
