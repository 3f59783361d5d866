import Arbor.Proofs.Evaluator.Assembly
import Arbor.Proofs.Layout
import Arbor.Resolver

/-!
# Dispatch over the evaluators of a tree

A resolver serves a tree if its table holds, in the order of the slots, the entry points of
functions whose code was emitted for the boundary nodes of the tree. Then a hop descends by the
function depth, and the dispatch from the root visits one boundary node on every boundary level
before it ends at the leaf of the walk.

## Main definitions

* `Resolver.Evaluates`, `Resolver.Serves`: what a resolver has to hold for a tree.
* `Resolver.Loops`: the hops from a node to a leaf, without a bound on their number.

## Main statements

* `Resolver.dispatch_eq_ok`: a dispatch is the loop over its hops.
* `Resolver.Serves.exists_entry`: every boundary node has a slot with its entry point.
* `Resolver.Serves.dispatch_eq`: the nodes that a dispatch visits, by induction on its hops.
* `Resolver.Serves.run_eq`, `Resolver.Serves.trace_eq`: runs and traces are those of the walk.
* `Resolver.Serves.slot_lt`, `Resolver.Serves.safe`: what can go wrong on the way does not.
-/

namespace Arbor.Resolver

open Index Evaluator

/-- From a node on, evaluators are called as long as the node is no leaf. The nodes that they are
called for, and the leaf that the last one returns. -/
inductive Loops (resolver : Resolver) (memory : Memory) : Nat → List Nat → Nat → Prop
  | done {leaf : Nat} (stop : resolver.isLeaf leaf = true) : Loops resolver memory leaf [] leaf
  | hop {index next leaf : Nat} {visited : List Nat} (inner : resolver.isLeaf index = false)
    (called : resolver.hop memory index = .ok next)
    (rest : Loops resolver memory next visited leaf) :
    Loops resolver memory index (index :: visited) leaf

/-- A dispatch is the loop, if that ends within the hops that are allowed. -/
theorem dispatch_eq_ok {resolver : Resolver} {memory : Memory} {fuel index leaf : Nat}
    {visited : List Nat} : resolver.dispatch memory fuel index = .ok (visited, leaf) ↔
      visited.length ≤ fuel ∧ resolver.Loops memory index visited leaf := by
  constructor
  · intro h
    induction fuel generalizing index visited with
    | zero =>
      rw [dispatch] at h
      split at h
      · next stop =>
        cases h
        exact ⟨Nat.le_refl 0, .done stop⟩
      · cases h
    | succ fuel ih =>
      rw [dispatch] at h
      split at h
      · next stop =>
        cases h
        exact ⟨Nat.zero_le _, .done stop⟩
      · next inner =>
        obtain ⟨next, called, h⟩ := bind_eq_ok.1 h
        obtain ⟨⟨more, last⟩, rest, h⟩ := bind_eq_ok.1 h
        cases h
        obtain ⟨short, loops⟩ := ih rest
        exact ⟨Nat.succ_le_succ short, .hop (Bool.not_eq_true _ ▸ inner) called loops⟩
  · rintro ⟨short, loops⟩
    induction loops generalizing fuel with
    | done stop => cases fuel <;> simp [dispatch, stop]
    | hop inner called _ ih =>
      obtain ⟨fuel, rfl⟩ := Nat.exists_eq_add_of_le' (Nat.one_le_of_lt short)
      simp [dispatch, inner, called, ih (Nat.le_of_succ_le_succ short)]

/-- The entry point of a function whose code was emitted for `levels` levels below `root`. -/
def Evaluates (arithmetic : Arithmetic) (tree : Tree) (levels root : Nat) (entry : EntryPoint) :
    Prop :=
  ∃ code selector symbol, Emits tree selector symbol levels root code ∧
    entry = code.assemble.run arithmetic

/-- The table holds entry points for the boundary nodes of `tree`. -/
structure Serves (resolver : Resolver) (arithmetic : Arithmetic) (tree : Tree) : Prop where
  treeDepth_eq : resolver.geometry.treeDepth = tree.depth
  functionDepth_pos : 0 < resolver.geometry.functionDepth
  functionDepth_dvd : resolver.geometry.functionDepth ∣ tree.depth
  layout_eq : resolver.layout = .regular tree.depth resolver.geometry.functionDepth
  required_le : tree.requiredFeatures ≤ resolver.featureCount
  table : List.Forall₂ (Evaluates arithmetic tree resolver.geometry.functionDepth)
    resolver.layout.nodes resolver.table.toList

namespace Serves

variable {resolver : Resolver} {arithmetic : Arithmetic} {tree : Tree} {memory : Memory}

theorem depth_le (_ : resolver.Serves arithmetic tree) : tree.depth ≤ 30 := tree.depth_le

/-- A boundary level that is not below the last one ends within the tree. -/
theorem functionDepth_mul_add_le (serves : resolver.Serves arithmetic tree) {position : Nat}
    (inner : resolver.geometry.functionDepth * position < tree.depth) :
    resolver.geometry.functionDepth * position + resolver.geometry.functionDepth ≤ tree.depth := by
  obtain ⟨hops, depth⟩ := serves.functionDepth_dvd
  rw [depth] at inner ⊢
  rw [← Nat.mul_succ]
  exact Nat.mul_le_mul_left _ (Nat.lt_of_mul_lt_mul_left inner)

theorem exists_entry (serves : resolver.Serves arithmetic tree) {index position : Nat}
    (level : levelOf index = resolver.geometry.functionDepth * position)
    (inner : levelOf index < tree.depth) :
    ∃ slot entry, resolver.layout.slot index = .ok slot ∧ resolver.table[slot]? = some entry ∧
      Evaluates arithmetic tree resolver.geometry.functionDepth index entry := by
  have position := Layout.getElem?_nodes serves.functionDepth_pos level inner
  rw [← serves.layout_eq] at position
  obtain ⟨entry, found, evaluates⟩ := forall₂_getElem? serves.table position
  refine ⟨_, entry, ?_, by simpa using found, evaluates⟩
  rw [serves.layout_eq]
  have := serves.depth_le
  exact Layout.slot_eq serves.functionDepth_pos (by omega) level inner

theorem hop_eq (serves : resolver.Serves arithmetic tree) (precise : arithmetic.Exact)
    (long : resolver.featureCount ≤ memory.features.size) {index position : Nat}
    (level : levelOf index = resolver.geometry.functionDepth * position)
    (inner : levelOf index < tree.depth) :
    resolver.hop memory index =
      .ok (descend (tree.outcome memory.features) resolver.geometry.functionDepth index) := by
  obtain ⟨slot, entry, hslot, hentry, code, selector, symbol, emits, rfl⟩ :=
    serves.exists_entry level inner
  have deep := serves.functionDepth_mul_add_le (level ▸ inner)
  rw [← level] at deep
  obtain ⟨node, returned, same⟩ :=
    emits.run_assemble precise deep (serves.required_le.trans long)
  simp only [hop, hslot, ok_bind, hentry, returned, pure_eq_ok, same]

theorem isLeaf_eq (serves : resolver.Serves arithmetic tree) (index : Nat) :
    resolver.isLeaf index = decide (tree.depth ≤ levelOf index) := by
  have := @levelOf_lt_iff index tree.depth
  have := treeNodes_add_one tree.depth
  rw [Resolver.isLeaf, serves.treeDepth_eq, decide_eq_decide]
  omega

/-- A dispatch from the boundary level with number `position`, when `count` boundary levels are left
and there is fuel for them. -/
theorem dispatch_eq (serves : resolver.Serves arithmetic tree) (precise : arithmetic.Exact)
    (long : resolver.featureCount ≤ memory.features.size)
    (position fuel : Nat) {count index : Nat} (enough : count ≤ fuel)
    (depth : tree.depth = resolver.geometry.functionDepth * (position + count))
    (level : levelOf index = resolver.geometry.functionDepth * position) :
    resolver.dispatch memory fuel index =
      .ok ((List.range count).map fun k =>
          descend (tree.outcome memory.features) (k * resolver.geometry.functionDepth) index,
        descend (tree.outcome memory.features) (count * resolver.geometry.functionDepth)
          index) := by
  induction count generalizing position fuel index with
  | zero =>
    have leaf : resolver.isLeaf index = true := by simp [serves.isLeaf_eq, level, depth]
    cases fuel <;> simp [dispatch, leaf]
  | succ count ih =>
    obtain ⟨fuel, rfl⟩ := Nat.exists_eq_add_of_le' (Nat.one_le_of_lt enough)
    have inner : levelOf index < tree.depth := by
      rw [level, depth]
      exact Nat.mul_lt_mul_of_pos_left (by omega) serves.functionDepth_pos
    have more : resolver.isLeaf index = false := by simpa [serves.isLeaf_eq] using inner
    have next : levelOf (descend (tree.outcome memory.features) resolver.geometry.functionDepth
        index) = resolver.geometry.functionDepth * (position + 1) := by
      rw [levelOf_descend, level, Nat.mul_succ]
    have rest := ih (position + 1) fuel (by omega) (by rw [depth]; congr 1; omega) next
    simp only [dispatch, more, Bool.false_eq_true, if_false, ok_bind, rest, pure_eq_ok,
      serves.hop_eq precise long level inner, ← descend_add, List.range_succ_eq_map, List.map_cons,
      List.map_map, Function.comp_def, Nat.zero_mul, descend_zero, Nat.succ_mul,
      Nat.add_comm _ resolver.geometry.functionDepth]

/-- Every boundary level has a slot, so a dispatch never runs out of hops. -/
theorem le_functionCount (serves : resolver.Serves arithmetic tree) :
    tree.depth / resolver.geometry.functionDepth ≤ resolver.functionCount := by
  have grow : ∀ position, position ≤ Layout.start resolver.geometry.functionDepth position := by
    intro position
    induction position with
    | zero => simp
    | succ position ih =>
      have := Nat.two_pow_pos (resolver.geometry.functionDepth * position)
      rw [Layout.start]
      omega
  have size : resolver.functionCount =
      Layout.start resolver.geometry.functionDepth
        (tree.depth / resolver.geometry.functionDepth) := by
    have length := serves.table.length_eq
    obtain ⟨hops, depth⟩ := serves.functionDepth_dvd
    rw [serves.layout_eq, Layout.length_nodes, depth, Nat.mul_comm,
      Layout.levelCount_mul serves.functionDepth_pos] at length
    rw [functionCount, depth, Nat.mul_div_cancel_left _ serves.functionDepth_pos, length,
      Array.length_toList]
  exact size ▸ grow _

/-- The boundary nodes from the root on and the leaf after them. -/
theorem dispatch_root (serves : resolver.Serves arithmetic tree) (precise : arithmetic.Exact)
    (long : resolver.featureCount ≤ memory.features.size) {fuel : Nat}
    (enough : tree.depth / resolver.geometry.functionDepth ≤ fuel) :
    resolver.dispatch memory fuel 0 =
      .ok (tree.boundaryWalk memory.features resolver.geometry.functionDepth,
        descend (tree.outcome memory.features) tree.depth 0) := by
  have depth := Nat.mul_div_cancel' serves.functionDepth_dvd
  rw [serves.dispatch_eq precise long 0 fuel enough (by rw [Nat.zero_add, depth]) rfl,
    Nat.mul_comm (tree.depth / _), depth, Tree.boundaryWalk]

/-- The roots of functions that the walk meets are visited, one after another. -/
theorem loops (serves : resolver.Serves arithmetic tree) (precise : arithmetic.Exact)
    (long : resolver.featureCount ≤ memory.features.size) :
    resolver.Loops memory 0 (tree.boundaryWalk memory.features resolver.geometry.functionDepth)
      (descend (tree.outcome memory.features) tree.depth 0) :=
  (dispatch_eq_ok.1 (serves.dispatch_root precise long (Nat.le_refl _))).2

/-- A node on a boundary level is a boundary node, and its slot is in the table. -/
theorem slot_lt (serves : resolver.Serves arithmetic tree) {index position : Nat}
    (level : levelOf index = resolver.geometry.functionDepth * position)
    (inner : levelOf index < tree.depth) :
    resolver.layout.isBoundary index = .ok true ∧
      ∃ slot, resolver.layout.slot index = .ok slot ∧ slot < resolver.table.size := by
  have depth := serves.depth_le
  constructor
  · rw [serves.layout_eq, Layout.isBoundary_eq serves.functionDepth_pos (by omega)]
    simp [level ▸ inner, level]
  · obtain ⟨slot, entry, hslot, found, -⟩ := serves.exists_entry level inner
    exact ⟨slot, hslot, (Array.getElem?_eq_some_iff.1 found).1⟩

/-- Every entry of the table, whether it is visited or not, runs code in which nothing can go
wrong, and returns a node. -/
theorem safe (serves : resolver.Serves arithmetic tree) (precise : arithmetic.Exact)
    (long : resolver.featureCount ≤ memory.features.size) :
    ∀ entry ∈ resolver.table, ∃ code : Code, entry = code.assemble.run arithmetic ∧
      code.Safe memory.features.size ∧ ∃ node, entry memory = .ok node := by
  intro entry member
  obtain ⟨root, boundary, code, selector, symbol, emits, rfl⟩ :=
    forall₂_exists serves.table (Array.mem_toList_iff.2 member)
  rw [serves.layout_eq, Layout.mem_nodes serves.functionDepth_pos] at boundary
  obtain ⟨inner, position, level⟩ := boundary
  have deep : levelOf root + resolver.geometry.functionDepth ≤ tree.depth := by
    rw [level] at inner ⊢
    exact serves.functionDepth_mul_add_le inner
  have required := serves.required_le.trans long
  obtain ⟨node, returned, -⟩ := emits.run_assemble precise deep required
  exact ⟨code, rfl, emits.safe required deep, node, returned⟩

theorem run_eq (serves : resolver.Serves arithmetic tree) (precise : arithmetic.Exact)
    (long : resolver.featureCount ≤ memory.features.size)
    {other : Tree} (same : other.depth = tree.depth) :
    resolver.run memory other = tree.interpret memory.features := by
  rw [tree.interpret_eq (serves.required_le.trans long)]
  simp [run, checkFeatures, long, same, serves.treeDepth_eq, travel,
    serves.dispatch_root precise long serves.le_functionCount]

theorem trace_eq (serves : resolver.Serves arithmetic tree) (precise : arithmetic.Exact)
    (long : resolver.featureCount ≤ memory.features.size) :
    resolver.trace memory = tree.interpretHops memory.features resolver.geometry.functionDepth := by
  rw [tree.interpretHops_eq (serves.required_le.trans long) serves.functionDepth_pos
    serves.functionDepth_dvd]
  simp [trace, checkFeatures, long, travel,
    serves.dispatch_root precise long serves.le_functionCount]

end Serves

end Arbor.Resolver
