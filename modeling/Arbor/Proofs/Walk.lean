import Arbor.Walk
import Arbor.Proofs.Layout

/-!
# What a walk reaches

On a feature vector that is long enough every predicate of a tree has an outcome, and walking the
tree is descending with these outcomes.

## Main definitions

* `Tree.outcome`: the outcome of the predicate at an index.
* `Tree.Walks`: the steps from a node to another, without a bound on their number.
* `Tree.boundaryWalk`: the nodes of a walk at multiples of a function depth.
* `Tree.Alike`: two trees with the same outcomes everywhere.

## Main statements

* `Tree.ofNodes_eq_ok`: every tree is made from its nodes, and from no others.
* `Tree.walk_eq`, `Tree.interpret_eq`, `Tree.walks_descend`: a walk is a descent.
* `Tree.hops_eq`, `Tree.interpretHops_eq`: the boundary nodes of a walk.
* `Tree.leaf_mem_range`: the leaves that walks end at.
-/

namespace Arbor

open Index

/-- The node's predicate on a feature vector, false if there is no such feature. -/
def Node.holds (node : Node) (features : Array Float32) : Bool :=
  match node.evaluate features with
  | .ok outcome => outcome
  | .error _ => false

theorem Node.evaluate_eq {node : Node} {features : Array Float32}
    (long : node.feature.toNat < features.size) :
    node.evaluate features = .ok (node.holds features) := by
  simp [holds, evaluate, Array.getElem?_eq_getElem long]

namespace Tree

variable (tree : Tree) {features : Array Float32}

/-- The outcome of the predicate at `index`, false at a leaf. -/
def outcome (features : Array Float32) (index : Nat) : Bool :=
  match tree.nodes[index]? with
  | some node => node.holds features
  | none => false

/-- From a node on, steps are taken. The nodes that they are taken at, and the node that the last
one leads to. -/
inductive Walks (tree : Tree) (features : Array Float32) : Nat → List Nat → Nat → Prop
  | done {index : Nat} : Walks tree features index [] index
  | step {index next last : Nat} {visited : List Nat}
    (taken : tree.step features index = .ok next) (rest : Walks tree features next visited last) :
    Walks tree features index (index :: visited) last

/-- The number of nodes determines the depth. -/
theorem ofNodes_eq_ok {nodes : Array Node} {tree : Tree} :
    ofNodes nodes = .ok tree ↔ tree.nodes = nodes := by
  constructor
  · intro made
    simp only [ofNodes] at made
    split at made
    · split at made
      · rw [← Except.ok.inj made]
      · cases made
    · cases made
  · rintro rfl
    obtain ⟨nodes, depth, size_eq, depth_pos, depth_le⟩ := tree
    obtain rfl : levelOf nodes.size = depth := by
      rw [size_eq, levelOf_eq_iff, treeNodes_add_one]
      exact ⟨Nat.le_refl _, Nat.pow_lt_pow_succ Nat.one_lt_two⟩
    rw [ofNodes, dif_pos ⟨size_eq, depth_pos⟩, dif_pos depth_le]

theorem feature_le_maxFeature {node : Node} (member : node ∈ tree.nodes) :
    node.feature.toNat ≤ tree.maxFeature := by
  -- the running maximum never falls and is at least every feature that was passed
  have grow : ∀ (nodes : List Node) (start : Nat),
      start ≤ nodes.foldl (fun largest node => max largest node.feature.toNat) start ∧
      ∀ node ∈ nodes, node.feature.toNat ≤
        nodes.foldl (fun largest node => max largest node.feature.toNat) start := by
    intro nodes
    induction nodes with
    | nil => simp
    | cons first rest ih =>
      intro start
      obtain ⟨least, each⟩ := ih (max start first.feature.toNat)
      refine ⟨(Nat.le_max_left _ _).trans least, ?_⟩
      rintro node (_ | ⟨_, hn⟩)
      · exact (Nat.le_max_right _ _).trans least
      · exact each node hn
  rw [maxFeature, ← Array.foldl_toList]
  exact (grow tree.nodes.toList 0).2 node (by simpa using member)

theorem maxFeature_lt {bound : Nat} (pos : 0 < bound)
    (each : ∀ node ∈ tree.nodes, node.feature.toNat < bound) : tree.maxFeature < bound := by
  have below : ∀ (nodes : List Node) (start : Nat), start < bound →
      (∀ node ∈ nodes, node.feature.toNat < bound) →
      nodes.foldl (fun largest node => max largest node.feature.toNat) start < bound := by
    intro nodes
    induction nodes with
    | nil => exact fun _ less _ => less
    | cons node rest ih =>
      intro start less all
      exact ih _ (Nat.max_lt.2 ⟨less, all node (by simp)⟩) fun n hn => all n (by simp [hn])
  rw [maxFeature, ← Array.foldl_toList]
  exact below tree.nodes.toList 0 pos fun node hn => each node (by simpa using hn)

theorem feature_lt {node : Node} (member : node ∈ tree.nodes)
    (long : tree.requiredFeatures ≤ features.size) : node.feature.toNat < features.size :=
  Nat.lt_of_le_of_lt (tree.feature_le_maxFeature member) long

/-- The levels of a tree have numbers that a word can be shifted by. -/
theorem depth_le_word : tree.depth ≤ 63 := tree.depth_le.trans (by decide)

theorem size_add_one : tree.size + 1 = 2 ^ tree.depth := by
  rw [size, tree.size_eq, treeNodes_add_one]

theorem lt_size_iff {index : Nat} : index < tree.nodes.size ↔ levelOf index < tree.depth := by
  have : tree.nodes.size + 1 = 2 ^ tree.depth := tree.size_add_one
  rw [levelOf_lt_iff]
  omega

theorem isLeaf_eq_false {index : Nat} (inner : levelOf index < tree.depth) :
    tree.isLeaf index = false := by
  have := tree.lt_size_iff.2 inner
  exact decide_eq_false (by rw [size]; omega)

/-- An inner node and its outcome. -/
theorem exists_node {index : Nat} (inner : levelOf index < tree.depth)
    (long : tree.requiredFeatures ≤ features.size) :
    ∃ node ∈ tree.nodes, tree.nodes[index]? = some node ∧
      node.evaluate features = .ok (tree.outcome features index) := by
  have inside := tree.lt_size_iff.2 inner
  refine ⟨tree.nodes[index], Array.getElem_mem inside, Array.getElem?_eq_getElem inside, ?_⟩
  rw [Node.evaluate_eq (tree.feature_lt (Array.getElem_mem inside) long), outcome,
    Array.getElem?_eq_getElem inside]

theorem step_eq {index : Nat} (inner : levelOf index < tree.depth)
    (long : tree.requiredFeatures ≤ features.size) :
    tree.step features index = .ok (child (tree.outcome features index) index) := by
  obtain ⟨node, _, hnode, heval⟩ := tree.exists_node inner long
  simp [step, Tree.node, hnode, heval]

theorem node_eq_ok {index : Nat} {node : Node} :
    tree.node index = .ok node ↔ tree.nodes[index]? = some node := by
  rw [Tree.node]
  cases tree.nodes[index]? <;> simp

theorem step_eq_ok {index next : Nat} : tree.step features index = .ok next ↔ ∃ test outcome,
    tree.nodes[index]? = some test ∧ test.evaluate features = .ok outcome ∧
      next = if outcome then 2 * index + 2 else 2 * index + 1 := by
  simp only [step, bind_eq_ok, node_eq_ok, pure_eq_ok, Except.ok.injEq, child, trueChild,
    falseChild, exists_and_left, @eq_comm _ next]

theorem walk_eq (long : tree.requiredFeatures ≤ features.size) (levels index : Nat)
    (deep : levelOf index + levels ≤ tree.depth) :
    tree.walk features levels index = .ok (descend (tree.outcome features) levels index) := by
  induction levels generalizing index with
  | zero => rfl
  | succ levels ih =>
    have inner : levelOf index < tree.depth := by omega
    simp only [walk, tree.isLeaf_eq_false inner, tree.step_eq inner long, ok_bind,
      Bool.false_eq_true, ↓reduceIte]
    exact ih _ (by rw [levelOf_child]; omega)

theorem walks_descend (long : tree.requiredFeatures ≤ features.size) (levels index : Nat)
    (deep : levelOf index + levels ≤ tree.depth) :
    tree.Walks features index
      ((List.range levels).map fun level => descend (tree.outcome features) level index)
      (descend (tree.outcome features) levels index) := by
  induction levels generalizing index with
  | zero => exact .done
  | succ levels ih =>
    have next := ih (child (tree.outcome features index) index) (by rw [levelOf_child]; omega)
    rw [List.range_succ_eq_map, List.map_cons, List.map_map]
    exact .step (tree.step_eq (by omega) long) next

theorem interpret_eq (long : tree.requiredFeatures ≤ features.size) :
    tree.interpret features = .ok (descend (tree.outcome features) tree.depth 0) :=
  tree.walk_eq long tree.depth 0 (by simp)

theorem hopsFrom_eq (long : tree.requiredFeatures ≤ features.size) {functionDepth : Nat}
    (positive : 0 < functionDepth) (levels level : Nat) (deep : level + levels = tree.depth) :
    tree.hopsFrom features functionDepth levels level (descend (tree.outcome features) level 0) =
      .ok (((List.range' level levels).filter (· % functionDepth == 0)).map
        (descend (tree.outcome features) · 0)) := by
  induction levels generalizing level with
  | zero => rfl
  | succ levels ih =>
    have inner : levelOf (descend (tree.outcome features) level 0) < tree.depth := by
      rw [levelOf_descend, levelOf_zero]
      omega
    have next := ih (level + 1) (by omega)
    rw [descend_last] at next
    simp only [hopsFrom, tree.isLeaf_eq_false inner, Word.rem, if_neg positive.ne',
      tree.step_eq inner long, next, ok_bind, Bool.false_eq_true, ↓reduceIte, pure_eq_ok,
      List.range'_succ, List.filter_cons]
    split <;> rfl

/-- The nodes of the walk that are on levels `0, F, 2F, …` are its hops, also if `F` does not divide
the depth. -/
theorem hops_eq (long : tree.requiredFeatures ≤ features.size) {functionDepth : Nat}
    (positive : 0 < functionDepth) :
    tree.interpretHops features functionDepth =
      .ok ((List.range (Layout.levelCount tree.depth functionDepth)).map fun hop =>
        descend (tree.outcome features) (hop * functionDepth) 0) := by
  have closed := tree.hopsFrom_eq long positive tree.depth 0 (by omega)
  rw [descend_zero, ← List.range_eq_range', Layout.filter_range_mod positive,
    List.map_map] at closed
  exact closed

/-- The nodes of the walk that are on levels `0, F, 2F, …`, where `F` divides the depth. -/
def boundaryWalk (features : Array Float32) (functionDepth : Nat) : List Nat :=
  (List.range (tree.depth / functionDepth)).map fun hop =>
    descend (tree.outcome features) (hop * functionDepth) 0

theorem length_boundaryWalk (features : Array Float32) (functionDepth : Nat) :
    (tree.boundaryWalk features functionDepth).length = tree.depth / functionDepth := by
  simp [boundaryWalk]

theorem levelOf_boundaryWalk {functionDepth hop index : Nat}
    (visited : (tree.boundaryWalk features functionDepth)[hop]? = some index) :
    levelOf index = hop * functionDepth ∧ hop < tree.depth / functionDepth := by
  obtain ⟨inside, rfl⟩ := List.getElem?_eq_some_iff.1 visited
  rw [length_boundaryWalk] at inside
  simpa [boundaryWalk, levelOf_descend] using inside

theorem interpretHops_eq (long : tree.requiredFeatures ≤ features.size) {functionDepth : Nat}
    (positive : 0 < functionDepth) (divides : functionDepth ∣ tree.depth) :
    tree.interpretHops features functionDepth =
      .ok (tree.boundaryWalk features functionDepth) := by
  have count : Layout.levelCount tree.depth functionDepth = tree.depth / functionDepth := by
    conv_lhs => rw [← Nat.div_mul_cancel divides, Layout.levelCount_mul positive]
  rw [tree.hops_eq long positive, count, boundaryWalk]

/-- A walk ends at one of the leaves. -/
theorem leaf_mem_range (features : Array Float32) :
    treeNodes tree.depth ≤ descend (tree.outcome features) tree.depth 0 ∧
      descend (tree.outcome features) tree.depth 0 < treeNodes tree.depth + 2 ^ tree.depth := by
  have level : levelOf (descend (tree.outcome features) tree.depth 0) = tree.depth := by
    rw [levelOf_descend, levelOf_zero, Nat.zero_add]
  obtain ⟨low, high⟩ := levelOf_eq_iff.1 level
  have first := treeNodes_add_one tree.depth
  rw [Nat.pow_succ] at high
  omega

/-! ## Trees that cannot be told apart -/

/-- No feature vector takes different ways through the two trees. -/
structure Alike (tree other : Tree) : Prop where
  depth_eq : tree.depth = other.depth
  required_eq : tree.requiredFeatures = other.requiredFeatures
  outcome_eq : ∀ features, tree.outcome features = other.outcome features

theorem Alike.refl (tree : Tree) : tree.Alike tree := ⟨rfl, rfl, fun _ => rfl⟩

theorem Alike.trans {tree middle other : Tree} (left : tree.Alike middle)
    (right : middle.Alike other) : tree.Alike other :=
  ⟨left.depth_eq.trans right.depth_eq, left.required_eq.trans right.required_eq,
    fun features => (left.outcome_eq features).trans (right.outcome_eq features)⟩

variable {tree} {other : Tree}

theorem Alike.interpret_eq (alike : tree.Alike other)
    (long : tree.requiredFeatures ≤ features.size) :
    tree.interpret features = other.interpret features := by
  rw [tree.interpret_eq long, other.interpret_eq (alike.required_eq ▸ long), alike.depth_eq,
    alike.outcome_eq]

theorem Alike.interpretHops_eq (alike : tree.Alike other)
    (long : tree.requiredFeatures ≤ features.size) {functionDepth : Nat}
    (positive : 0 < functionDepth) (divides : functionDepth ∣ tree.depth) :
    tree.interpretHops features functionDepth = other.interpretHops features functionDepth := by
  rw [tree.interpretHops_eq long positive divides,
    other.interpretHops_eq (alike.required_eq ▸ long) positive (alike.depth_eq ▸ divides),
    boundaryWalk, boundaryWalk, alike.outcome_eq, alike.depth_eq]

end Tree

end Arbor
