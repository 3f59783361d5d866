import Arbor.Proofs.Evaluator.Jump
import Arbor.Proofs.Walk

/-!
# Emitted code descends

Code that was emitted for some levels below a node returns the node that a walk of the tree reaches
from there in as many steps, whatever strategies the selector mixes.

## Main definitions

* `Emits`: the code with which the evaluation goes on at a node.
* `Code.tests`, `Code.exits`: the predicates in a piece of code and the nodes it can return.
* `Code.Total`, `Code.Narrow`: no switch in a piece of code has a condition vector without an arm or
  one that is wider than a word.
* `Code.Safe`: nothing in a piece of code can go wrong.

## Main statements

* `Emits.induction`: properties of emitted code by induction on the levels that are left.
* `Emits.run_eq`: what emitted code returns.
* `Emits.tests_subset`, `Emits.levelOf_exits`, `Emits.total`, `Emits.narrow`: emitted code tests
  nodes of the tree only, all its exits lie the right number of levels below its root, and its
  switches are total and narrow.
-/

namespace Arbor.Evaluator

open Index

variable {tree : Tree} {selector : Selector} {symbol : String}

/-- The code with which the evaluation goes on at `root` with `remaining` levels left. -/
def Emits (tree : Tree) (selector : Selector) (symbol : String) (remaining root : Nat)
    (code : Code) : Prop :=
  if remaining = 0 then code = .goto root
  else emit tree selector symbol remaining root = .ok code

theorem pos_of_emit {remaining root : Nat} {code : Code}
    (h : emit tree selector symbol remaining root = .ok code) : 0 < remaining := by
  rw [emit] at h
  split at h
  · omega
  · cases h

theorem Emits.of_emit {remaining root : Nat} {code : Code}
    (h : emit tree selector symbol remaining root = .ok code) :
    Emits tree selector symbol remaining root code := by
  rwa [Emits, if_neg (pos_of_emit h).ne']

/-- What one step of the emission does. -/
theorem emit_cases {remaining root : Nat} {code : Code} (words : levelOf root + 1 < 64)
    (h : emit tree selector symbol remaining root = .ok code) :
    (∃ levels jump arms, selector remaining = .subtreeSwitch levels ∧
      (0 < levels ∧ levels ≤ remaining ∧ levels ≤ maxSwitchDepth) ∧
      Jump.of tree root levels = .ok jump ∧ code = .switch jump.tests jump.table arms ∧
      List.Forall₂ (Emits tree selector symbol (remaining - levels)) jump.exits arms) ∨
    ∃ test onTrue onFalse, selector remaining = .ifThenElse ∧ 0 < remaining ∧
      tree.nodes[root]? = some test ∧ code = .branch test onTrue onFalse ∧
      Emits tree selector symbol (remaining - 1) (child true root) onTrue ∧
      Emits tree selector symbol (remaining - 1) (child false root) onFalse := by
  have continues : ∀ {left node : Nat} {code : Code},
      (if left = 0 then .ok (.goto node) else emit tree selector symbol left node) = .ok code →
        Emits tree selector symbol left node code := by
    intro left node code h
    rw [Emits]
    split at h
    · next spent => simpa [spent] using h.symm
    · next more => rwa [if_neg more]
  rw [emit] at h
  split at h
  · next fits =>
    cases strategy : selector remaining with
    | subtreeSwitch levels =>
      simp only [strategy, Strategy.levels] at h fits
      obtain ⟨jump, hjump, h⟩ := bind_eq_ok.1 h
      obtain ⟨arms, harms, h⟩ := bind_eq_ok.1 h
      refine .inl ⟨levels, jump, arms, rfl, fits, lift_eq_ok.1 hjump, (Except.ok.inj h).symm, ?_⟩
      exact (mapM_eq_ok.1 harms).imp fun _ _ => continues
    | ifThenElse =>
      simp only [strategy, Strategy.levels, Bounded.children_eq words, lift_ok, ok_bind] at h fits
      obtain ⟨test, htest, h⟩ := bind_eq_ok.1 h
      obtain ⟨onTrue, htrue, h⟩ := bind_eq_ok.1 h
      obtain ⟨onFalse, hfalse, h⟩ := bind_eq_ok.1 h
      exact .inr ⟨test, onTrue, onFalse, rfl, fits.2.1, tree.node_eq_ok.1 (lift_eq_ok.1 htest),
        (Except.ok.inj h).symm, continues htrue, continues hfalse⟩
  · simp at h

theorem levelOf_of_mem_bottom {levels root node : Nat} (member : node ∈ bottom levels root) :
    levelOf node = levelOf root + levels := by
  have low := two_pow_levelOf_le root
  have high := lt_two_pow_levelOf root
  have pos : 0 < (root + 1) * 2 ^ levels := Nat.mul_pos (Nat.succ_pos _) (Nat.two_pow_pos _)
  obtain ⟨first, last⟩ := List.mem_range'_1.1 member
  rw [levelOf_eq_iff, Nat.add_right_comm, Nat.pow_add, Nat.pow_add]
  constructor
  · exact (Nat.mul_le_mul_right _ low).trans (by omega)
  · calc node + 1 < (root + 1 + 1) * 2 ^ levels := by rw [Nat.succ_mul]; omega
      _ ≤ 2 ^ (levelOf root + 1) * 2 ^ levels := Nat.mul_le_mul_right _ high

/-- Properties of emitted code, by induction on the levels that are left. -/
theorem Emits.induction {motive : Nat → Nat → Code → Prop}
    (goto : ∀ node, levelOf node ≤ tree.depth → motive 0 node (.goto node))
    (switch : ∀ {remaining root levels : Nat} {jump : Jump} {arms : List Code},
      selector (levels + remaining) = .subtreeSwitch levels →
      0 < levels ∧ levels ≤ maxSwitchDepth →
      levelOf root + (levels + remaining) ≤ tree.depth → jump.Covers tree root levels →
      List.Forall₂ (motive remaining) jump.exits arms →
      motive (levels + remaining) root (.switch jump.tests jump.table arms))
    (branch : ∀ {remaining root : Nat} {test : Node} {onTrue onFalse : Code},
      selector (remaining + 1) = .ifThenElse →
      levelOf root + (remaining + 1) ≤ tree.depth → tree.nodes[root]? = some test →
      motive remaining (child true root) onTrue → motive remaining (child false root) onFalse →
      motive (remaining + 1) root (.branch test onTrue onFalse))
    {remaining root : Nat} {code : Code} (h : Emits tree selector symbol remaining root code)
    (deep : levelOf root + remaining ≤ tree.depth) : motive remaining root code := by
  induction remaining using Nat.strong_induction_on generalizing root code with
  | _ remaining ih =>
    have depth := tree.depth_le
    simp only [maxTreeDepth] at depth
    by_cases spent : remaining = 0
    · subst spent
      rw [show code = .goto root from h]
      exact goto root deep
    · rw [Emits, if_neg spent] at h
      obtain ⟨levels, jump, arms, picked, ⟨pos, fits, few⟩, hjump, rfl, harms⟩ |
        ⟨test, onTrue, onFalse, picked, pos, htest, rfl, htrue, hfalse⟩ := emit_cases (by omega) h
      · obtain ⟨left, rfl⟩ := Nat.exists_eq_add_of_le fits
        obtain ⟨other, hother, covers⟩ := @Jump.of_eq tree root levels (by omega)
          (few.trans (by decide))
        obtain rfl : jump = other := Except.ok.inj (hjump.symm.trans hother)
        refine switch picked ⟨pos, few⟩ deep covers ?_
        rw [Nat.add_sub_cancel_left] at harms
        rw [covers.exits_eq] at harms ⊢
        -- every exit has its level, so the induction hypothesis applies to its arm
        refine List.forall₂_iff_zip.2 ⟨harms.length_eq, fun {node arm} member => ?_⟩
        have level := levelOf_of_mem_bottom (List.mem_reverse.1 (List.of_mem_zip member).1)
        exact ih left (by omega) ((List.forall₂_iff_zip.1 harms).2 member) (by omega)
      · obtain ⟨left, rfl⟩ := Nat.exists_eq_succ_of_ne_zero spent
        refine branch picked deep htest (ih left (by omega) htrue ?_) (ih left (by omega) hfalse ?_)
        · rw [levelOf_child]
          omega
        · rw [levelOf_child]
          omega

/-! ## Running emitted code -/

theorem conditionVector_eq {features : Array Float32} {tests : List Node}
    (long : ∀ test ∈ tests, test.feature.toNat < features.size) :
    ∃ vector, conditionVector features tests = .ok vector ∧ vector < 2 ^ tests.length ∧
      ∀ bit test, tests[bit]? = some test → vector.testBit bit = test.holds features := by
  induction tests with
  | nil => exact ⟨0, rfl, by simp, by simp⟩
  | cons test rest ih =>
    obtain ⟨vector, read, less, bits⟩ := ih fun t ht => long t (by simp [ht])
    refine ⟨2 * vector + (test.holds features).toNat, ?_, ?_, ?_⟩
    · simp [conditionVector, Node.evaluate_eq (long test (by simp)), read]
    · have := (test.holds features).toNat_le
      rw [List.length_cons, Nat.pow_succ]
      omega
    · intro bit other hbit
      cases bit with
      | zero =>
        obtain rfl : test = other := by simpa using hbit
        cases test.holds features <;> simp [Nat.testBit_zero, Nat.add_mod]
      | succ bit =>
        rw [← bits bit other (by simpa using hbit), Nat.testBit_succ]
        congr 1
        have := (test.holds features).toNat_le
        omega

theorem runArm_eq {features : Array Float32} {arms : List Code} {arm : Nat} {code : Code}
    (h : arms[arm]? = some code) (vector : Nat) :
    Code.runArm features vector arms arm = code.run features := by
  induction arms generalizing arm with
  | nil => simp at h
  | cons first rest ih =>
    cases arm with
    | zero =>
      obtain rfl : first = code := by simpa using h
      rw [Code.runArm]
    | succ arm =>
      rw [Code.runArm]
      exact ih (by simpa using h)

/-- A switch goes on with the arm of the node that the walk reaches. -/
theorem run_switch {features : Array Float32} (long : tree.requiredFeatures ≤ features.size)
    {root levels : Nat} {jump : Jump} (covers : jump.Covers tree root levels)
    (deep : levelOf root + levels ≤ tree.depth) (arms : List Code) :
    ∃ arm : Nat, jump.exits[arm]? = some (descend (tree.outcome features) levels root) ∧
      ∀ code : Code, arms[arm]? = some code →
        (Code.switch jump.tests jump.table arms).run features = code.run features := by
  have node : ∀ bit < 2 ^ levels - 1, ∃ test ∈ tree.nodes, jump.tests[bit]? = some test ∧
      test.holds features = tree.outcome features (subtreeNode root bit) := by
    intro bit hb
    have inner : levelOf (subtreeNode root bit) < tree.depth := by
      have := lt_treeNodes_iff.1 hb
      rw [levelOf_subtreeNode]
      omega
    obtain ⟨test, member, hget, heval⟩ := tree.exists_node inner long
    refine ⟨test, member, (covers.tests_eq bit hb).trans hget, ?_⟩
    rw [Node.evaluate_eq (tree.feature_lt member long)] at heval
    exact Except.ok.inj heval
  obtain ⟨vector, read, less, bits⟩ := @conditionVector_eq features
    jump.tests fun test ht => by
      obtain ⟨bit, hbit⟩ := List.mem_iff_getElem?.1 ht
      obtain ⟨other, member, hget, -⟩ :=
        node bit (covers.length_tests ▸ (List.getElem?_eq_some_iff.1 hbit).1)
      obtain rfl := Option.some.inj (hbit.symm.trans hget)
      exact tree.feature_lt member long
  rw [covers.length_tests] at less
  obtain ⟨arm, harm, hexit⟩ := covers.arm_eq vector less
  -- the bits of the vector are the outcomes of the nodes that a descent can meet
  have same : subtreeNode root (descend vector.testBit levels 0) =
      descend (tree.outcome features) levels root := by
    conv_rhs => rw [← subtreeNode_zero root, descend_subtreeNode]
    congr 1
    apply descend_congr
    intro bit hbit
    rw [levelOf_zero, Nat.zero_add] at hbit
    obtain ⟨test, -, hget, holds⟩ := node bit (lt_treeNodes_iff.2 hbit)
    rw [bits bit test hget, holds]
  refine ⟨arm, hexit.trans (congrArg some same), fun code hcode => ?_⟩
  simp only [Code.run, read, ok_bind, harm, Option.getD_some]
  exact runArm_eq hcode vector

/-- Emitted code returns the node that the walk reaches in as many steps as levels were emitted. -/
theorem Emits.run_eq {features : Array Float32} (long : tree.requiredFeatures ≤ features.size)
    {remaining root : Nat} {code : Code} (h : Emits tree selector symbol remaining root code)
    (deep : levelOf root + remaining ≤ tree.depth) :
    code.run features = .ok (descend (tree.outcome features) remaining root) := by
  refine h.induction (motive := fun remaining root code =>
    code.run features = .ok (descend (tree.outcome features) remaining root)) ?_ ?_ ?_ deep
  · intro node _
    simp [Code.run]
  · intro remaining root levels jump arms _ _ deep covers harms
    obtain ⟨arm, hexit, hrun⟩ := run_switch long covers (by omega) arms
    obtain ⟨code, hcode, hcontinue⟩ := forall₂_getElem? harms hexit
    rw [hrun code hcode, hcontinue, descend_add]
  · intro remaining root test onTrue onFalse _ deep htest htrue hfalse
    obtain ⟨node, _, hnode, heval⟩ := tree.exists_node (show levelOf root < _ by omega) long
    obtain rfl := Option.some.inj (htest.symm.trans hnode)
    rw [Code.run, heval, ok_bind, descend_succ]
    cases tree.outcome features root
    · exact hfalse
    · exact htrue

/-! ## What emitted code consists of -/

mutual

def Code.tests : Code → List Node
  | .goto _ => []
  | .branch test onTrue onFalse => test :: (onTrue.tests ++ onFalse.tests)
  | .switch tests _ arms => tests ++ Code.armTests arms

def Code.armTests : List Code → List Node
  | [] => []
  | code :: rest => code.tests ++ Code.armTests rest

end

mutual

def Code.exits : Code → List Nat
  | .goto next => [next]
  | .branch _ onTrue onFalse => onTrue.exits ++ onFalse.exits
  | .switch _ _ arms => Code.armExits arms

def Code.armExits : List Code → List Nat
  | [] => []
  | code :: rest => code.exits ++ Code.armExits rest

end

mutual

/-- Whether every condition vector of every switch has an arm. -/
def Code.Total : Code → Prop
  | .goto _ => True
  | .branch _ onTrue onFalse => onTrue.Total ∧ onFalse.Total
  | .switch tests table arms =>
    (∀ vector < 2 ^ tests.length, ∃ arm < arms.length, table[vector]? = some arm) ∧
      Code.TotalArms arms

def Code.TotalArms : List Code → Prop
  | [] => True
  | code :: rest => code.Total ∧ Code.TotalArms rest

end

mutual

/-- Every switch in a piece of code has so few tests that their outcomes fit a word. -/
def Code.Narrow : Code → Prop
  | .goto _ => True
  | .branch _ onTrue onFalse => onTrue.Narrow ∧ onFalse.Narrow
  | .switch tests _ arms => tests.length ≤ 64 ∧ Code.NarrowArms arms

def Code.NarrowArms : List Code → Prop
  | [] => True
  | code :: rest => code.Narrow ∧ Code.NarrowArms rest

end

/-- On a vector of `size` features nothing in the code can go wrong: no switch falls to its default,
no condition vector is wider than a word, no predicate reads behind the feature vector, also none
off the path, and every exit fits a signed word. -/
structure Code.Safe (size : Nat) (code : Code) : Prop where
  total : code.Total
  narrow : code.Narrow
  tests_lt : ∀ test ∈ code.tests, test.feature.toNat < size
  exits_lt : ∀ exit ∈ code.exits, exit < 2 ^ 63

theorem mem_armTests {arms : List Code} {test : Node} :
    test ∈ Code.armTests arms ↔ ∃ code ∈ arms, test ∈ code.tests := by
  induction arms with
  | nil => simp [Code.armTests]
  | cons code rest ih => simp [Code.armTests, ih]

theorem mem_armExits {arms : List Code} {node : Nat} :
    node ∈ Code.armExits arms ↔ ∃ code ∈ arms, node ∈ code.exits := by
  induction arms with
  | nil => simp [Code.armExits]
  | cons code rest ih => simp [Code.armExits, ih]

theorem totalArms_iff {arms : List Code} : Code.TotalArms arms ↔ ∀ code ∈ arms, code.Total := by
  induction arms with
  | nil => simp [Code.TotalArms]
  | cons code rest ih => simp [Code.TotalArms, ih]

theorem narrowArms_iff {arms : List Code} : Code.NarrowArms arms ↔ ∀ code ∈ arms, code.Narrow := by
  induction arms with
  | nil => simp [Code.NarrowArms]
  | cons code rest ih => simp [Code.NarrowArms, ih]

theorem Emits.tests_subset {remaining root : Nat} {code : Code}
    (h : Emits tree selector symbol remaining root code)
    (deep : levelOf root + remaining ≤ tree.depth) : ∀ test ∈ code.tests, test ∈ tree.nodes := by
  refine h.induction (motive := fun _ _ code => ∀ test ∈ code.tests, test ∈ tree.nodes)
    ?_ ?_ ?_ deep
  · simp [Code.tests]
  · intro remaining root levels jump arms _ _ deep covers harms test ht
    obtain direct | ht := List.mem_append.1 (by simpa only [Code.tests] using ht)
    · obtain ⟨bit, hbit⟩ := List.mem_iff_getElem?.1 direct
      have inside := covers.length_tests ▸ (List.getElem?_eq_some_iff.1 hbit).1
      exact Array.mem_of_getElem? ((covers.tests_eq bit inside).symm.trans hbit)
    · obtain ⟨code, hcode, ht⟩ := mem_armTests.1 ht
      obtain ⟨exit, -, hcode⟩ := forall₂_exists harms hcode
      exact hcode test ht
  · intro remaining root test onTrue onFalse _ deep htest htrue hfalse other ht
    simp only [Code.tests, List.mem_cons, List.mem_append] at ht
    obtain rfl | ht | ht := ht
    · exact Array.mem_of_getElem? htest
    · exact htrue other ht
    · exact hfalse other ht

theorem Emits.levelOf_exits {remaining root : Nat} {code : Code}
    (h : Emits tree selector symbol remaining root code)
    (deep : levelOf root + remaining ≤ tree.depth) :
    ∀ exit ∈ code.exits, levelOf exit = levelOf root + remaining := by
  refine h.induction (motive := fun remaining root code =>
    ∀ exit ∈ code.exits, levelOf exit = levelOf root + remaining) ?_ ?_ ?_ deep
  · simp [Code.exits]
  · intro remaining root levels jump arms _ _ deep covers harms exit he
    obtain ⟨code, hcode, he⟩ := mem_armExits.1 (by simpa only [Code.exits] using he)
    obtain ⟨node, hnode, hcode⟩ := forall₂_exists harms hcode
    rw [covers.exits_eq, List.mem_reverse] at hnode
    rw [hcode exit he, levelOf_of_mem_bottom hnode, Nat.add_assoc]
  · intro remaining root test onTrue onFalse _ deep htest htrue hfalse exit he
    simp only [Code.exits, List.mem_append] at he
    have below : levelOf exit = levelOf root + 1 + remaining := by
      obtain he | he := he
      · rw [htrue exit he, levelOf_child]
      · rw [hfalse exit he, levelOf_child]
    omega

theorem Emits.total {remaining root : Nat} {code : Code}
    (h : Emits tree selector symbol remaining root code)
    (deep : levelOf root + remaining ≤ tree.depth) : code.Total := by
  refine h.induction (motive := fun _ _ code => code.Total) ?_ ?_ ?_ deep
  · simp [Code.Total]
  · intro remaining root levels jump arms _ _ deep covers harms
    rw [Code.Total, covers.length_tests, totalArms_iff]
    constructor
    · intro vector less
      obtain ⟨arm, harm, hexit⟩ := covers.arm_eq vector less
      exact ⟨arm, harms.length_eq ▸ (List.getElem?_eq_some_iff.1 hexit).1, harm⟩
    · intro code hcode
      obtain ⟨_, _, total⟩ := forall₂_exists harms hcode
      exact total
  · intro remaining root test onTrue onFalse _ deep htest htrue hfalse
    exact ⟨htrue, hfalse⟩

theorem Emits.narrow {remaining root : Nat} {code : Code}
    (h : Emits tree selector symbol remaining root code)
    (deep : levelOf root + remaining ≤ tree.depth) : code.Narrow := by
  refine h.induction (motive := fun _ _ code => code.Narrow) ?_ ?_ ?_ deep
  · simp [Code.Narrow]
  · intro remaining root levels jump arms _ few deep covers harms
    rw [Code.Narrow, covers.length_tests, narrowArms_iff]
    constructor
    · have width : 2 ^ levels ≤ 2 ^ maxSwitchDepth := Nat.pow_le_pow_right Nat.two_pos few.2
      exact (Nat.sub_le _ _).trans (width.trans (by decide))
    · intro code hcode
      obtain ⟨_, _, narrow⟩ := forall₂_exists harms hcode
      exact narrow
  · intro remaining root test onTrue onFalse _ deep htest htrue hfalse
    exact ⟨htrue, hfalse⟩

theorem Emits.safe {features : Array Float32} (long : tree.requiredFeatures ≤ features.size)
    {remaining root : Nat} {code : Code} (h : Emits tree selector symbol remaining root code)
    (deep : levelOf root + remaining ≤ tree.depth) : code.Safe features.size where
  total := h.total deep
  narrow := h.narrow deep
  tests_lt test member := tree.feature_lt (h.tests_subset deep test member) long
  exits_lt exit member := by
    have level := h.levelOf_exits deep exit member
    have depth := tree.depth_le
    simp only [maxTreeDepth] at depth
    have shallow : levelOf exit < 63 := by omega
    have := levelOf_lt_iff.1 shallow
    omega

end Arbor.Evaluator
