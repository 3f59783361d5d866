import Arbor.Proofs.Ancestor
import Arbor.Proofs.Evaluator.Chain

/-!
# Emitted code covers its subtree

The predicates of emitted code are those of the nodes of its subtree, each once. The order in which
they come depends on the selector only. The levels of a strategy and the subtrees below them tile a
subtree, and the subtrees of the boundary nodes tile the tree.

## Main definitions

* `Index.Within`: the nodes of a subtree with some levels.
* `Selector.sites`: the nodes whose predicates are emitted, in their order.

## Main statements

* `Index.within_iff_of_le`: the upper levels and the subtrees below them tile a subtree.
* `Selector.mem_sites`, `Selector.nodup_sites`: each node of the subtree is a site once.
* `Emits.tests_eq`: the predicates of emitted code are those of the sites.
* `Layout.sites_perm`: over all boundary nodes, the sites are the nodes above the leaves.
* `emit_deep`: code is only emitted for levels that the tree has.
-/

namespace Arbor

namespace Index

structure Within (root levels i : Nat) : Prop where
  le_level : levelOf root ≤ levelOf i
  level_lt : levelOf i < levelOf root + levels
  ancestor_eq : ancestor (levelOf root) i = root

variable {root levels i : Nat}

/-- The roots of two subtrees with a common node differ in their level only. -/
theorem Within.root_eq {other more : Nat} (within : Within root levels i)
    (also : Within other more i) (level : levelOf root = levelOf other) : root = other := by
  rw [← within.ancestor_eq, level, also.ancestor_eq]

theorem mem_bottom : i ∈ bottom levels root ↔
    levelOf i = levelOf root + levels ∧ ancestor (levelOf root) i = root := by
  have span : i ∈ bottom levels root ↔ (i + 1) / 2 ^ levels = root + 1 := by
    have : 0 < (root + 1) * 2 ^ levels := Nat.mul_pos (Nat.succ_pos _) (Nat.two_pow_pos _)
    rw [bottom, List.mem_range'_1, Nat.div_eq_iff (Nat.two_pow_pos levels)]
    have := Nat.two_pow_pos levels
    omega
  constructor
  · intro member
    have level := Evaluator.levelOf_of_mem_bottom member
    have quotient := @ancestor_add_one (levelOf root) i (by omega)
    rw [level, Nat.add_sub_cancel_left, span.1 member] at quotient
    exact ⟨level, Nat.succ_injective quotient⟩
  · rintro ⟨level, above⟩
    have quotient := @ancestor_add_one (levelOf root) i (by omega)
    rw [above, level, Nat.add_sub_cancel_left] at quotient
    exact span.2 quotient.symm

theorem ancestor_subtreeNode (root bit : Nat) :
    ancestor (levelOf root) (subtreeNode root bit) = root := by
  induction bit using child_induction with
  | root => rw [subtreeNode_zero, ancestor_levelOf]
  | child outcome bit ih => rw [subtreeNode_child, ancestor_child (by simp), ih]

/-- Every node of a subtree has a position in it. -/
theorem exists_subtreeNode (above : levelOf root ≤ levelOf i)
    (top : ancestor (levelOf root) i = root) : ∃ bit, subtreeNode root bit = i := by
  induction i using child_induction with
  | root => exact ⟨0, by rw [subtreeNode_zero, ← top, ancestor_of_le (by simp)]⟩
  | child outcome i ih =>
    rw [levelOf_child] at above
    rcases Nat.le_succ_iff.1 above with above | same
    · rw [ancestor_child above] at top
      obtain ⟨bit, rfl⟩ := ih above top
      exact ⟨child outcome bit, subtreeNode_child outcome root bit⟩
    · rw [ancestor_of_le (by rw [levelOf_child, same])] at top
      exact ⟨0, by rw [subtreeNode_zero, top]⟩

theorem mem_map_subtreeNode :
    i ∈ (List.range (2 ^ levels - 1)).map (subtreeNode root) ↔ Within root levels i := by
  simp only [List.mem_map, List.mem_range, Evaluator.lt_treeNodes_iff]
  constructor
  · rintro ⟨bit, inside, rfl⟩
    exact ⟨by simp, by simpa using inside, ancestor_subtreeNode root bit⟩
  · rintro ⟨above, inside, top⟩
    obtain ⟨bit, rfl⟩ := exists_subtreeNode above top
    exact ⟨bit, by simpa using inside, rfl⟩

/-- A subtree consists of its upper levels and of the subtrees below them. -/
theorem within_iff_of_le {upper : Nat} (le : upper ≤ levels) : Within root levels i ↔
    Within root upper i ∨ ∃ node ∈ bottom upper root, Within node (levels - upper) i := by
  constructor
  · rintro ⟨above, inside, top⟩
    by_cases high : levelOf i < levelOf root + upper
    · exact .inl ⟨above, high, top⟩
    · have low : levelOf root + upper ≤ levelOf i := Nat.le_of_not_lt high
      have level := levelOf_ancestor low
      refine .inr ⟨ancestor (levelOf root + upper) i, mem_bottom.2 ⟨level, ?_⟩, ?_, ?_, ?_⟩
      · rw [ancestor_ancestor (Nat.le_add_right _ _) low, top]
      · rwa [level]
      · rw [level]
        omega
      · rw [level]
  · rintro (⟨above, inside, top⟩ | ⟨node, member, below, inside, top⟩)
    · exact ⟨above, by omega, top⟩
    · obtain ⟨level, under⟩ := mem_bottom.1 member
      rw [level] at below inside top
      refine ⟨by omega, by omega, ?_⟩
      rw [← ancestor_ancestor (Nat.le_add_right _ upper) below, top, under]

end Index

open Index

/-! ## Sites -/

namespace Selector

variable {selector : Selector} {remaining : Nat}

/-- The nodes whose predicates are emitted for `remaining` levels from `root` on. -/
def sites (selector : Selector) (remaining root : Nat) : List Nat :=
  if _fits : selector.Fits remaining then
    (List.range (2 ^ (selector remaining).levels - 1)).map (subtreeNode root) ++
      (bottom (selector remaining).levels root).reverse.flatMap fun node =>
        sites selector (remaining - (selector remaining).levels) node
  else []
termination_by remaining
decreasing_by exact _fits.sub_lt

theorem sites_of_fits (fits : selector.Fits remaining) (root : Nat) :
    selector.sites remaining root =
      (List.range (2 ^ (selector remaining).levels - 1)).map (subtreeNode root) ++
        (bottom (selector remaining).levels root).reverse.flatMap
          (selector.sites (remaining - (selector remaining).levels)) := by
  rw [sites, dif_pos fits]

@[simp] theorem sites_zero (selector : Selector) (root : Nat) : selector.sites 0 root = [] := by
  rw [sites, dif_neg fun fits => Nat.lt_irrefl 0 fits.pos]

theorem mem_sites (exhausts : selector.Exhausts remaining) {root i : Nat} :
    i ∈ selector.sites remaining root ↔ Within root remaining i := by
  induction exhausts generalizing root with
  | done =>
    rw [sites_zero]
    constructor
    · simp
    · rintro ⟨above, inside, -⟩
      omega
  | @step remaining fits _ ih =>
    rw [sites_of_fits fits, List.mem_append, mem_map_subtreeNode, List.mem_flatMap,
      within_iff_of_le fits.2.1]
    simp only [List.mem_reverse, ih]

theorem nodup_sites (exhausts : selector.Exhausts remaining) (root : Nat) :
    (selector.sites remaining root).Nodup := by
  induction exhausts generalizing root with
  | done => simp
  | @step remaining fits rest ih =>
    rw [sites_of_fits fits, List.nodup_append]
    refine ⟨List.nodup_range.map (subtreeNode_strictMono root).injective, ?_, ?_⟩
    · rw [List.nodup_flatMap]
      refine ⟨fun node _ => ih node, ?_⟩
      refine (List.nodup_reverse.2 (nodup_bottom _ root)).imp_of_mem ?_
      intro node other here there differ i first second
      obtain ⟨level, -⟩ := mem_bottom.1 (List.mem_reverse.1 here)
      obtain ⟨same, -⟩ := mem_bottom.1 (List.mem_reverse.1 there)
      exact differ (((mem_sites rest).1 first).root_eq ((mem_sites rest).1 second)
        (level.trans same.symm))
    · -- the levels of the strategy end where those of the subtrees below begin
      rintro i first _ second rfl
      obtain ⟨node, member, below⟩ := List.mem_flatMap.1 second
      have high := (mem_map_subtreeNode.1 first).level_lt
      have low := ((mem_sites rest).1 below).le_level
      have level := (mem_bottom.1 (List.mem_reverse.1 member)).1
      omega

end Selector

namespace Evaluator

variable {tree : Tree} {selector : Selector} {symbol : String}

theorem map_armTests {read : Nat → Option Node} {sites : Nat → List Nat} {exits : List Nat}
    {arms : List Code} (h : List.Forall₂ (fun node code =>
      code.tests.map some = (sites node).map read) exits arms) :
    (Code.armTests arms).map some = (exits.flatMap sites).map read := by
  induction h with
  | nil => rfl
  | cons first _ ih => rw [Code.armTests, List.map_append, first, ih, List.flatMap_cons,
      List.map_append]

theorem Jump.Covers.map_tests {root levels : Nat} {jump : Jump}
    (covers : jump.Covers tree root levels) : jump.tests.map some =
      ((List.range (2 ^ levels - 1)).map (subtreeNode root)).map (tree.nodes[·]?) := by
  apply List.ext_getElem?
  intro bit
  by_cases inside : bit < 2 ^ levels - 1
  · have inner : bit < jump.tests.length := covers.length_tests ▸ inside
    have test := covers.tests_eq bit inside
    rw [List.getElem?_eq_getElem inner] at test
    simp [List.getElem?_range inside, List.getElem?_eq_getElem inner, ← test]
  · rw [List.getElem?_eq_none (by simpa [covers.length_tests] using inside),
      List.getElem?_eq_none (by simpa using inside)]

/-- The predicates of emitted code are those of its sites, in the same order. -/
theorem Emits.tests_eq {remaining root : Nat} {code : Code}
    (h : Emits tree selector symbol remaining root code)
    (deep : levelOf root + remaining ≤ tree.depth) :
    code.tests.map some = (selector.sites remaining root).map (tree.nodes[·]?) := by
  refine h.induction (motive := fun remaining root code =>
    code.tests.map some = (selector.sites remaining root).map (tree.nodes[·]?)) ?_ ?_ ?_ deep
  · intro node _
    simp [Code.tests]
  · intro remaining root levels jump arms picked narrow deep covers harms
    have fits := Selector.fits_of_switch picked narrow
    rw [Code.tests, List.map_append, covers.map_tests, map_armTests harms, covers.exits_eq,
      Selector.sites_of_fits fits, picked, Strategy.levels, Nat.add_sub_cancel_left,
      List.map_append]
  · intro remaining root test onTrue onFalse picked deep htest htrue hfalse
    have fits := Selector.fits_of_branch picked
    simp [Code.tests, Selector.sites_of_fits fits, picked, Strategy.levels, bottom_succ, htest,
      htrue, hfalse, child]

/-! ## Depths -/

theorem lt_size_of_testsFrom {root count bit other : Nat} {tests : List (Nat × Node)}
    (read : testsFrom tree root count bit = .ok tests) (first : bit ≤ other)
    (last : other < bit + count) (words : levelOf root + levelOf other < 64) :
    subtreeNode root other < tree.nodes.size := by
  induction count generalizing bit tests with
  | zero => omega
  | succ count ih =>
    obtain ⟨index, hindex, read⟩ := bind_eq_ok.1 read
    obtain ⟨node, hnode, read⟩ := bind_eq_ok.1 read
    obtain ⟨rest, hrest, -⟩ := bind_eq_ok.1 read
    rcases Nat.eq_or_lt_of_le first with rfl | later
    · rw [Bounded.subtreeNode_eq words] at hindex
      obtain rfl := Except.ok.inj hindex
      exact (Array.getElem?_eq_some_iff.1 (tree.node_eq_ok.1 hnode)).1
    · exact ih hrest later (by omega)

theorem Jump.deep_of_eq_ok {root levels : Nat} {jump : Jump}
    (h : Jump.of tree root levels = .ok jump) (pos : 0 < levels) (few : levels ≤ 6)
    (words : levelOf root + levels < 64) : levelOf root + levels ≤ tree.depth := by
  obtain ⟨upper, rfl⟩ := Nat.exists_eq_succ_of_ne_zero pos.ne'
  have wide := Nat.two_pow_pos upper
  have level : levelOf (2 ^ (upper + 1) - 2) = upper := by
    rw [levelOf_eq_iff, Nat.pow_succ]
    omega
  simp only [Jump.of, Bounded.treeNodes_eq (show upper.succ < 64 by omega), ok_bind,
    (low32_treeNodes few).1] at h
  obtain ⟨tests, read, -⟩ := bind_eq_ok.1 h
  -- the last node of the subtree is on its last level
  have last := @lt_size_of_testsFrom tree root _ 0 (2 ^ (upper + 1) - 2) tests read (Nat.zero_le _)
    (by rw [Nat.pow_succ]; omega) (by omega)
  rw [tree.lt_size_iff, levelOf_subtreeNode, level] at last
  omega

/-- Code is only emitted for levels that the tree has. -/
theorem emit_deep {remaining root : Nat} {code : Code}
    (h : emit tree selector symbol remaining root = .ok code)
    (words : levelOf root + remaining < 64) : levelOf root + remaining ≤ tree.depth := by
  induction remaining using Nat.strong_induction_on generalizing root code with
  | _ remaining ih =>
    have more := pos_of_emit h
    -- what is left below a node is emitted there, unless it is nothing
    have below {left node : Nat} {code : Code} (less : left < remaining)
        (goes : Emits tree selector symbol left node code) (level : levelOf node + left < 64)
        (inner : levelOf node ≤ tree.depth) : levelOf node + left ≤ tree.depth := by
      rw [Emits] at goes
      split at goes
      · omega
      · exact ih left less goes level
    obtain ⟨levels, jump, arms, -, ⟨pos, fits, few⟩, hjump, -, harms⟩ |
      ⟨test, onTrue, onFalse, -, -, htest, -, htrue, -⟩ := emit_cases (by omega) h
    · have narrow : levels ≤ 6 := few.trans (by decide)
      have inner := Jump.deep_of_eq_ok hjump pos narrow (by omega)
      obtain ⟨other, hother, covers⟩ := Jump.of_eq inner narrow
      obtain rfl := Except.ok.inj (hjump.symm.trans hother)
      obtain ⟨others, first⟩ := exists_reverse_bottom levels root
      have level := levelOf_rightmost levels root
      rw [covers.exits_eq, first] at harms
      obtain _ | ⟨goes, -⟩ := harms
      have := below (by omega) goes (by omega) (by omega)
      omega
    · have inner := tree.lt_size_iff.1 (Array.getElem?_eq_some_iff.1 htest).1
      have level := levelOf_child true root
      have := below (by omega) htrue (by omega) (by omega)
      omega

end Evaluator

/-- The level of the boundary node that a node belongs to. -/
theorem Index.Within.level_eq {root levels i : Nat} (within : Within root levels i)
    (boundary : levels ∣ levelOf root) : levelOf root = levels * (levelOf i / levels) := by
  obtain ⟨position, level⟩ := boundary
  have low := within.le_level
  have high := within.level_lt
  rw [level, Nat.mul_comm] at low
  rw [level, ← Nat.mul_succ, Nat.mul_comm] at high
  rw [Nat.div_eq_of_lt_le low high, level]

/-- The subtrees of the boundary nodes tile the tree. -/
theorem Layout.sites_perm {selector : Selector} {treeDepth functionDepth : Nat}
    (pos : 0 < functionDepth) (chunks : functionDepth ∣ treeDepth)
    (exhausts : selector.Exhausts functionDepth) :
    ((regular treeDepth functionDepth).nodes.flatMap (selector.sites functionDepth)).Perm
      (List.range (2 ^ treeDepth - 1)) := by
  refine (List.perm_ext_iff_of_nodup ?_ List.nodup_range).2 fun i => ?_
  · rw [List.nodup_flatMap]
    refine ⟨fun root _ => Selector.nodup_sites exhausts root, (nodup_nodes pos).imp_of_mem ?_⟩
    intro root other here there differ i first second
    have first := (Selector.mem_sites exhausts).1 first
    have second := (Selector.mem_sites exhausts).1 second
    apply differ
    apply first.root_eq second
    rw [first.level_eq ((mem_nodes pos).1 here).2, second.level_eq ((mem_nodes pos).1 there).2]
  · simp only [List.mem_flatMap, List.mem_range, Evaluator.lt_treeNodes_iff,
      Selector.mem_sites exhausts]
    constructor
    · rintro ⟨root, member, within⟩
      exact within.level_lt.trans_le (level_add_le pos chunks member)
    · intro inner
      have low := Nat.mul_div_le (levelOf i) functionDepth
      have high := Nat.lt_mul_div_succ (levelOf i) pos
      have level := levelOf_ancestor low
      refine ⟨ancestor (functionDepth * (levelOf i / functionDepth)) i, ?_, ?_, ?_, ?_⟩
      · exact (mem_nodes pos).2 ⟨by omega, _, level⟩
      · rwa [level]
      · rwa [level, ← Nat.mul_succ]
      · rw [level]

end Arbor
