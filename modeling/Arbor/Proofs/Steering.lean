import Arbor.Samples
import Arbor.Proofs.Tree.Generate
import Mathlib.Algebra.BigOperators.Group.Finset.Basic
import Mathlib.Algebra.BigOperators.Ring.Finset

/-!
# Steered samples

A steered sample is made by writing one value for each node that a path meets. All values go into
one vector, so a later node can overwrite the value of an earlier one. If the nodes read different
features, no value is lost, and the walk of the tree goes where the path goes.

## Main definitions

* `Index.along`: the node that directions lead to, and `Index.digit`, their share in its number.
* `Samples.trail`: the nodes that a path meets, with its directions.
* `Samples.Steerable`: the nodes of a path do not get in each other's way and can be steered.
* `Samples.Follows`: the walk of a tree takes a path.

## Main statements

* `Samples.steerFrom_eq`: what is written.
* `Samples.getElem?_write_of_ne`, `Samples.getElem?_write_of_mem`: what can be read afterwards.
* `Samples.Steerable.descend_eq`: following the outcomes is following the directions.
* `Samples.steered_follows`: steerable paths are followed, and in a tree with a feature for every
  node all paths are.
-/

namespace Arbor

namespace Index

def along (path : List Bool) (i : Nat) : Nat := path.foldl (fun i outcome => child outcome i) i

@[simp] theorem along_nil (i : Nat) : along [] i = i := rfl

@[simp] theorem along_cons (outcome : Bool) (path : List Bool) (i : Nat) :
    along (outcome :: path) i = along path (child outcome i) := rfl

theorem levelOf_along (path : List Bool) (i : Nat) :
    levelOf (along path i) = levelOf i + path.length := by
  induction path generalizing i with
  | nil => rfl
  | cons outcome path ih =>
    rw [along_cons, ih, levelOf_child, List.length_cons]
    omega

theorem le_along (path : List Bool) (i : Nat) : i ≤ along path i := by
  induction path generalizing i with
  | nil => exact Nat.le_refl i
  | cons outcome path ih => exact (lt_child outcome i).le.trans (ih _)

theorem along_take_succ {path : List Bool} {level : Nat} {outcome : Bool}
    (turn : path[level]? = some outcome) (i : Nat) :
    along (path.take (level + 1)) i = child outcome (along (path.take level) i) := by
  rw [List.take_add_one, turn, along, List.foldl_append]
  rfl

theorem levelOf_along_take {path : List Bool} {level : Nat} (le : level ≤ path.length) :
    levelOf (along (path.take level) 0) = level := by
  rw [levelOf_along, levelOf_zero, List.length_take_of_le le, Nat.zero_add]

def digit (path : List Bool) (level : Nat) : Nat := if path[level]? = some true then 1 else 0

theorem digit_eq {path : List Bool} {level : Nat} {outcome : Bool}
    (turn : path[level]? = some outcome) : digit path level = outcome.toNat := by
  cases outcome <;> simp [digit, turn]

/-- Counted from one, the directions are the binary digits of a node after the leading one. -/
theorem along_add_one {path : List Bool} {level : Nat} (le : level ≤ path.length) :
    along (path.take level) 0 + 1 =
      2 ^ level + ∑ i ∈ Finset.range level, digit path i * 2 ^ (level - 1 - i) := by
  induction level with
  | zero => simp
  | succ level ih =>
    obtain ⟨outcome, turn⟩ : ∃ outcome, path[level]? = some outcome :=
      ⟨path[level], List.getElem?_eq_getElem le⟩
    have doubled : ∑ i ∈ Finset.range level, digit path i * 2 ^ (level - i) =
        2 * ∑ i ∈ Finset.range level, digit path i * 2 ^ (level - 1 - i) := by
      rw [Finset.mul_sum]
      refine Finset.sum_congr rfl fun i inside => ?_
      have below := Finset.mem_range.1 inside
      rw [show level - i = level - 1 - i + 1 by omega, Nat.pow_succ]
      ring
    rw [along_take_succ turn, child_add_one, ih (by omega), Finset.sum_range_succ,
      Nat.add_sub_cancel, doubled, digit_eq turn, Nat.sub_self, Nat.pow_succ]
    ring

end Index

open Index

namespace Samples

variable {tree : Tree} {path : List Bool} {features : Array Float32} {stops : List (Node × Bool)}

/-! ## Writing values -/

/-- The nodes that a path meets from `index` on, with the directions that it takes there. -/
def trail (tree : Tree) : (path : List Bool) → (index : Nat) → List (Node × Bool)
  | [], _ => []
  | outcome :: path, index =>
    match tree.get? index with
    | none => []
    | some node => (node, outcome) :: trail tree path (child outcome index)

def write (features : Array Float32) (stop : Node × Bool) : Array Float32 :=
  features.setIfInBounds stop.1.feature.toNat (steer stop.1 stop.2)

theorem steerFrom_eq (path : List Bool) (index : Nat) (features : Array Float32) :
    steerFrom tree path index features = (trail tree path index).foldl write features := by
  induction path generalizing index features with
  | nil => rfl
  | cons outcome path ih =>
    rw [steerFrom, trail]
    cases tree.get? index with
    | none => rfl
    | some node => exact ih _ _

theorem size_write (stops : List (Node × Bool)) (features : Array Float32) :
    (stops.foldl write features).size = features.size := by
  induction stops generalizing features with
  | nil => rfl
  | cons stop stops ih => rw [List.foldl_cons, ih, write, Array.size_setIfInBounds]

/-- Features that no node on the way reads stay as they are. -/
theorem getElem?_write_of_ne {feature : UInt32} (other : ∀ stop ∈ stops, stop.1.feature ≠ feature) :
    (stops.foldl write features)[feature.toNat]? = features[feature.toNat]? := by
  induction stops generalizing features with
  | nil => rfl
  | cons stop stops ih =>
    have differ : stop.1.feature.toNat ≠ feature.toNat :=
      fun same => other stop (by simp) (UInt32.toNat_inj.1 same)
    rw [List.foldl_cons, ih fun later member => other later (by simp [member]), write,
      Array.getElem?_setIfInBounds_ne differ]

/-- If the nodes on the way read different features, each finds its own value. -/
theorem getElem?_write_of_mem (apart : stops.Pairwise (·.1.feature ≠ ·.1.feature))
    {stop : Node × Bool} (member : stop ∈ stops)
    (inside : stop.1.feature.toNat < features.size) :
    (stops.foldl write features)[stop.1.feature.toNat]? = some (steer stop.1 stop.2) := by
  induction stops generalizing features with
  | nil => simp at member
  | cons first stops ih =>
    rw [List.pairwise_cons] at apart
    rw [List.foldl_cons]
    rcases List.mem_cons.1 member with rfl | member
    · rw [getElem?_write_of_ne fun later hl => (apart.1 later hl).symm, write,
        Array.getElem?_setIfInBounds_self_of_lt inside]
    · exact ih apart.2 member (by rwa [write, Array.size_setIfInBounds])

/-! ## Trails -/

/-- The stop with number `level`. -/
theorem getElem?_trail {index level : Nat} {node : Node} {outcome : Bool} :
    (trail tree path index)[level]? = some (node, outcome) ↔
      path[level]? = some outcome ∧ tree.nodes[along (path.take level) index]? = some node := by
  induction path generalizing index level with
  | nil => simp [trail]
  | cons first path ih =>
    rw [trail, Tree.get?]
    cases found : tree.nodes[index]? with
    | none =>
      -- below a leaf there are only leaves
      have below : tree.nodes[along ((first :: path).take level) index]? = none := by
        rw [Array.getElem?_eq_none_iff] at found ⊢
        exact found.trans (le_along _ _)
      simp [below]
    | some here =>
      cases level with
      | zero => simp [found, and_comm, eq_comm]
      | succ level => simpa using ih

/-- Directions below the leaves do not count. -/
theorem trail_take {index levels : Nat} (deep : tree.depth ≤ levelOf index + levels) :
    trail tree (path.take levels) index = trail tree path index := by
  induction path generalizing index levels with
  | nil => rw [List.take_nil]
  | cons outcome path ih =>
    cases levels with
    | zero =>
      have leaf : tree.get? index = none := by
        rw [Tree.get?, Array.getElem?_eq_none_iff, ← Nat.not_lt, tree.lt_size_iff]
        omega
      simp [trail, leaf]
    | succ levels =>
      rw [List.take_succ_cons, trail, trail, ih (by rw [levelOf_child]; omega)]

/-! ## Following a path -/

theorem size_steered (tree : Tree) (path : List Bool) :
    (steered tree path).size = tree.requiredFeatures := by
  rw [steered, steerFrom_eq, size_write, Array.size_replicate]

theorem steered_take (tree : Tree) (path : List Bool) :
    steered tree (path.take tree.depth) = steered tree path := by
  rw [steered, steerFrom_eq, steered, steerFrom_eq, trail_take (by simp)]

/-- The nodes that a path meets read different features, and each of them has the wanted outcome on
the value that it is steered with. -/
structure Steerable (tree : Tree) (path : List Bool) : Prop where
  apart : ∀ i j first second, i < j → j < min path.length tree.depth →
    tree.nodes[along (path.take i) 0]? = some first →
    tree.nodes[along (path.take j) 0]? = some second → first.feature ≠ second.feature
  obeys : ∀ i node outcome, i < min path.length tree.depth →
    tree.nodes[along (path.take i) 0]? = some node → path[i]? = some outcome →
    node.comparator.compare (node.operation.apply (steer node outcome)) node.bias = outcome

/-- The steered sample has its length, and its walk takes the path as far as there are directions
and nodes. With a direction for every level it ends at the leaf that has the directions as its
digits. Further directions do not count. -/
structure Follows (tree : Tree) (path : List Bool) : Prop where
  size_eq : (steered tree path).size = tree.requiredFeatures
  walks : tree.Walks (steered tree path) 0
    ((List.range (min path.length tree.depth)).map fun level => along (path.take level) 0)
    (along (path.take (min path.length tree.depth)) 0)
  walk_eq : ∀ level ≤ min path.length tree.depth,
    tree.walk (steered tree path) level 0 = .ok (along (path.take level) 0)
  interpret_eq : tree.depth ≤ path.length → tree.interpret (steered tree path) =
    .ok (tree.size + ∑ i ∈ Finset.range tree.depth, digit path i * 2 ^ (tree.depth - 1 - i))
  ignores : steered tree (path.take tree.depth) = steered tree path

namespace Steerable

variable (steerable : Steerable tree path)
include steerable

theorem pairwise_trail : (trail tree path 0).Pairwise (·.1.feature ≠ ·.1.feature) := by
  rw [List.pairwise_iff_getElem]
  intro i j hi hj less
  obtain ⟨-, first⟩ := getElem?_trail.1 (List.getElem?_eq_getElem hi)
  obtain ⟨turn, second⟩ := getElem?_trail.1 (List.getElem?_eq_getElem hj)
  have short := (List.getElem?_eq_some_iff.1 turn).1
  have inner := tree.lt_size_iff.1 (Array.getElem?_eq_some_iff.1 second).1
  rw [levelOf_along_take short.le] at inner
  exact steerable.apart i j _ _ less (Nat.lt_min.2 ⟨short, inner⟩) first second

theorem outcome_eq {level : Nat} {outcome : Bool} (inner : level < tree.depth)
    (turn : path[level]? = some outcome) :
    tree.outcome (steered tree path) (along (path.take level) 0) = outcome := by
  have short := (List.getElem?_eq_some_iff.1 turn).1
  obtain ⟨node, member, found, -⟩ := @Tree.exists_node tree (steered tree path)
    (along (path.take level) 0) (by rwa [levelOf_along_take short.le]) (size_steered tree path).ge
  have read : (steered tree path)[node.feature.toNat]? = some (steer node outcome) := by
    rw [steered, steerFrom_eq]
    refine getElem?_write_of_mem steerable.pairwise_trail
      (List.mem_of_getElem? (getElem?_trail.2 ⟨turn, found⟩)) ?_
    exact tree.feature_lt member (Array.size_replicate ..).ge
  have obeyed := steerable.obeys level node outcome (Nat.lt_min.2 ⟨short, inner⟩) found turn
  simp [Tree.outcome, found, Node.holds, Node.evaluate, read, obeyed]

/-- Following the outcomes is following the directions. -/
theorem descend_eq {level : Nat} (le : level ≤ min path.length tree.depth) :
    descend (tree.outcome (steered tree path)) level 0 = along (path.take level) 0 := by
  induction level with
  | zero => rfl
  | succ level ih =>
    have turn := List.getElem?_eq_getElem (show level < path.length by omega)
    rw [descend_last, ih (by omega), steerable.outcome_eq (by omega) turn, along_take_succ turn]

theorem follows : Follows tree path := by
  have long := (size_steered tree path).ge
  refine ⟨size_steered tree path, ?_, fun level le => ?_, fun enough => ?_, steered_take tree path⟩
  · have walks := tree.walks_descend long (min path.length tree.depth) 0 (by simp)
    rwa [steerable.descend_eq (Nat.le_refl _), List.map_congr_left fun level inside =>
      steerable.descend_eq (List.mem_range.1 inside).le] at walks
  · rw [tree.walk_eq long level 0 (by simp; omega), steerable.descend_eq le]
  · have number := along_add_one enough
    have size := tree.size_add_one
    rw [tree.interpret_eq long, steerable.descend_eq (by omega)]
    congr 1
    omega

end Steerable

/-- A feature that is compared with one half can be steered to both sides. -/
theorem compare_ownFeatureNode (index : Nat) (outcome : Bool) :
    Comparator.greaterThan.compare (steer (Tree.ownFeatureNode index) outcome) Operation.half =
      outcome := by
  cases outcome with
  | false =>
    have low : Comparator.greaterThan.compare (Operation.half - margin) Operation.half = false := by
      decide
    exact low
  | true =>
    have high : Comparator.greaterThan.compare (Operation.half + margin) Operation.half = true := by
      decide
    exact high

theorem toNat_ownFeatureNode {index : Nat} (inside : index < tree.nodes.size) :
    (Tree.ownFeatureNode index).feature.toNat = index := by
  have size : tree.nodes.size + 1 = 2 ^ tree.depth := tree.size_add_one
  have small : 2 ^ tree.depth ≤ 2 ^ 30 := Nat.pow_le_pow_right Nat.two_pos tree.depth_le
  exact UInt32.toNat_ofNat_of_lt' (show index < 2 ^ 32 by omega)

/-- In a tree with a feature for every node, every path can be steered along. -/
theorem steerable_of_ownFeatures
    (nodes : ∀ index node, tree.nodes[index]? = some node → node = Tree.ownFeatureNode index)
    (path : List Bool) : Steerable tree path := by
  have feature {index : Nat} {node : Node} (found : tree.nodes[index]? = some node) :
      node.feature.toNat = index := by
    rw [nodes index node found, toNat_ownFeatureNode (Array.getElem?_eq_some_iff.1 found).1]
  constructor
  · intro i j first second less short here there same
    -- nodes on different levels are different, and so are their features
    have index : along (path.take i) 0 = along (path.take j) 0 := by
      rw [← feature here, ← feature there, same]
    have level := congrArg levelOf index
    rw [levelOf_along_take (by omega), levelOf_along_take (by omega)] at level
    omega
  · intro i node outcome _ here _
    rw [nodes _ _ here]
    exact compare_ownFeatureNode _ outcome

/-- If the nodes that a path meets can be steered and read different features, the walk of the
steered sample takes the path. In a tree with a feature for every node, it takes every path. -/
theorem steered_follows :
    (∀ (tree : Tree) (path : List Bool), Steerable tree path → Follows tree path) ∧
    ∀ depth, 1 ≤ depth → depth ≤ 30 → ∃ tree, Tree.ownFeatures depth = .ok tree ∧
      tree.depth = depth ∧ ∀ path, Follows tree path := by
  refine ⟨fun tree path steerable => steerable.follows, fun depth pos shallow => ?_⟩
  obtain ⟨tree, made, same, nodes⟩ := Tree.ownFeatures_eq_ok pos shallow
  exact ⟨tree, made, same, fun path => (steerable_of_ownFeatures nodes path).follows⟩

/-- The root and its right child read the same feature. Steering both to the right overwrites the
value of the root, and the walk turns left there. -/
def crossing : Tree :=
  ⟨#[⟨0, .bypass, .lessThan, 0.5⟩, ⟨1, .sqrt, .greaterThan, 0.25⟩, ⟨0, .bypass, .greaterThan, 0.5⟩],
    2, rfl, Nat.two_pos, Nat.le_of_ble_eq_true rfl⟩

/-- A path to the left with one direction too many. -/
theorem steered_follows_crossing : Steerable crossing [false, true, true] ∧
    (steered crossing [false, true, true]).size = 2 ∧
    crossing.Walks (steered crossing [false, true, true]) 0 [0, 1] 4 ∧
    crossing.interpret (steered crossing [false, true, true]) = .ok 4 := by
  have steerable : Steerable crossing [false, true, true] := by
    constructor
    · intro i j first second less short here there
      obtain ⟨rfl, rfl⟩ : i = 0 ∧ j = 1 := by
        rw [show min [false, true, true].length crossing.depth = 2 from rfl] at short
        omega
      cases here
      cases there
      decide
    · intro i node outcome short here turn
      obtain rfl | rfl : i = 0 ∨ i = 1 := by
        rw [show min [false, true, true].length crossing.depth = 2 from rfl] at short
        omega
      · cases here
        cases turn
        decide +kernel
      · cases here
        cases turn
        decide +kernel
  have follows := steered_follows.1 crossing [false, true, true] steerable
  exact ⟨steerable, follows.size_eq, follows.walks, follows.interpret_eq (by decide)⟩

end Samples

end Arbor
