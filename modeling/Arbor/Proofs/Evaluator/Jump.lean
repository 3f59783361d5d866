import Arbor.Evaluator.Emit
import Arbor.Proofs.Evaluator.Path
import Mathlib.Tactic.IntervalCases

/-!
# Jump tables are total

The table of a jump has an entry for every condition vector, and the exit it names is the one that
is reached by descending with the bits of the vector.

## Main definitions

* `Jump.Covers`: what a jump through a subtree has to be.

## Main statements

* `fillTable_eq`, `fillTable_of_leads`: no entry of a table is set twice.
* `Jump.of_eq`: the jump through a subtree of a tree exists and covers it.
-/

namespace Arbor.Evaluator

open Index PathBits

/-- Tests, exits and table belong to the subtree of `root` with `levels` levels. -/
structure Jump.Covers (tree : Tree) (root levels : Nat) (jump : Jump) : Prop where
  length_tests : jump.tests.length = 2 ^ levels - 1
  tests_eq : ∀ bit < 2 ^ levels - 1, jump.tests[bit]? = tree.nodes[subtreeNode root bit]?
  exits_eq : jump.exits = (bottom levels root).reverse
  size_table : jump.table.size = 2 ^ (2 ^ levels - 1)
  arm_eq : ∀ vector < 2 ^ (2 ^ levels - 1), ∃ arm, jump.table[vector]? = some arm ∧
    jump.exits[arm]? = some (subtreeNode root (descend vector.testBit levels 0))

theorem Offsets.ofEntries_eq {entries : List (Nat × Nat)} {node bit : Nat}
    (present : (node, bit) ∈ entries) (unique : ∀ other, (node, other) ∈ entries → other = bit) :
    Offsets.ofEntries entries node = some bit := by
  have found : (entries.reverse.find? (·.1 == node)).isSome := by
    rw [List.find?_isSome]
    exact ⟨(node, bit), by simpa using present, by simp⟩
  obtain ⟨⟨key, value⟩, hfind⟩ := Option.isSome_iff_exists.1 found
  obtain rfl : key = node := by simpa using List.find?_some hfind
  have member : (key, value) ∈ entries := by simpa using List.mem_of_find?_eq_some hfind
  rw [Offsets.ofEntries, hfind, Option.map_some, unique value member]

theorem low32_treeNodes {levels : Nat} (few : levels ≤ 6) :
    Word.low32 (treeNodes levels) = 2 ^ levels - 1 ∧ 2 ^ levels - 1 < 64 := by
  interval_cases levels <;> decide

theorem lt_treeNodes_iff {bit levels : Nat} : bit < 2 ^ levels - 1 ↔ levelOf bit < levels := by
  rw [levelOf_lt_iff]
  omega

/-! ## Filling the table -/

/-- Vectors that are all different and unused so far get the arm, and no other entry changes. -/
theorem label_eq {unused : Nat} (arm : Nat) {vectors : List Nat} {table : Array Nat}
    (distinct : vectors.Nodup) (free : ∀ vector ∈ vectors, table[vector]? = some unused) :
    ∃ labelled, label unused arm vectors table = .ok labelled ∧ labelled.size = table.size ∧
      (∀ vector ∈ vectors, labelled[vector]? = some arm) ∧
      ∀ vector ∉ vectors, labelled[vector]? = table[vector]? := by
  induction vectors generalizing table with
  | nil => exact ⟨table, rfl, rfl, by simp, fun _ _ => rfl⟩
  | cons first rest ih =>
    obtain ⟨fresh, distinct⟩ := List.nodup_cons.1 distinct
    have here := free first List.mem_cons_self
    have inside := (Array.getElem?_eq_some_iff.1 here).1
    have others : ∀ vector, vector ≠ first →
        (table.setIfInBounds first arm)[vector]? = table[vector]? :=
      fun vector other => Array.getElem?_setIfInBounds_ne other.symm
    obtain ⟨labelled, made, size, entered, kept⟩ := @ih (table.setIfInBounds first arm) distinct
      fun vector member => (others vector fun same => fresh (same ▸ member)).trans
        (free vector (List.mem_cons_of_mem _ member))
    refine ⟨labelled, ?_, size.trans Array.size_setIfInBounds, ?_, ?_⟩
    · simp only [label, here, if_true, made]
    · rintro vector (_ | ⟨_, member⟩)
      · rw [kept first fresh, Array.getElem?_setIfInBounds_self_of_lt inside]
      · exact entered vector member
    · intro vector out
      rw [List.mem_cons, not_or] at out
      rw [kept vector out.2, others vector out.1]

def Apart (paths : List LeafPath) : Prop :=
  paths.Pairwise fun path other => ∀ vector, Agrees vector path.bits → ¬ Agrees vector other.bits

/-- Arms are entered one path after the other. If the paths are apart, no entry is set twice: a
vector gets the arm of the path it agrees with, and keeps its old entry if there is none. -/
theorem fillTable_eq {conditionBits unused : Nat} {paths : List LeafPath}
    (small : conditionBits < 64) (sorted : ∀ path ∈ paths, Sorted path.bits)
    (inside : ∀ path ∈ paths, ∀ entry ∈ path.bits, entry.1 < conditionBits) (apart : Apart paths)
    (arm : Nat) {table : Array Nat} (size : table.size = 2 ^ conditionBits)
    (free : ∀ vector < 2 ^ conditionBits, ∀ path ∈ paths, Agrees vector path.bits →
      table[vector]? = some unused) :
    ∃ filled, fillTable conditionBits unused paths arm table = .ok filled ∧
      filled.size = 2 ^ conditionBits ∧ ∀ vector < 2 ^ conditionBits,
        ((∀ path ∈ paths, ¬ Agrees vector path.bits) → filled[vector]? = table[vector]?) ∧
        ∀ i path, paths[i]? = some path → Agrees vector path.bits →
          filled[vector]? = some (arm + i) := by
  induction paths generalizing arm table with
  | nil => exact ⟨table, rfl, size, fun _ _ => ⟨fun _ => rfl, by simp⟩⟩
  | cons first rest ih =>
    obtain ⟨later, apart⟩ := List.pairwise_cons.1 apart
    obtain ⟨vectors, read, mem⟩ :=
      mem_variants small (sorted first (by simp)) (inside first (by simp))
    have distinct : vectors.Nodup :=
      nodup_variants read fun entry he => (inside first (by simp) entry he).trans small
    obtain ⟨labelled, made, same, entered, kept⟩ := label_eq arm distinct fun vector member =>
      free vector ((mem vector).1 member).1 first (by simp) ((mem vector).1 member).2
    -- a vector that agrees with a later path is none of the first, so its entry is still unused
    obtain ⟨filled, hfill, full, spec⟩ := @ih (fun p hp => sorted p (by simp [hp]))
      (fun p hp => inside p (by simp [hp])) apart (arm + 1) labelled (same.trans size)
      fun vector less path member agrees => by
        rw [kept vector fun h => later path member vector ((mem vector).1 h).2 agrees]
        exact free vector less path (by simp [member]) agrees
    refine ⟨filled, by simp only [fillTable, read, ok_bind, made, hfill], full,
      fun vector less => ?_⟩
    obtain ⟨keeps, enters⟩ := spec vector less
    constructor
    · intro out
      rw [keeps fun p hp => out p (by simp [hp])]
      exact kept vector fun h => out first (by simp) ((mem vector).1 h).2
    · intro i path hi agrees
      cases i with
      | zero =>
        obtain rfl : first = path := by simpa using hi
        rw [keeps fun p hp again => later p hp vector agrees again, Nat.add_zero]
        exact entered vector ((mem vector).2 ⟨less, agrees⟩)
      | succ i =>
        rw [enters i path (by simpa using hi) agrees, Nat.add_right_comm, Nat.add_assoc]

/-- The paths of a subtree are apart, since a vector agrees with one of them only. -/
theorem apart_of_leads {root levels : Nat} {paths : List LeafPath}
    (leaves : paths.map (·.leaf) = (bottom levels root).reverse)
    (leads : ∀ path ∈ paths, path.Leads root levels levels 0)
    (agreeing : ∀ vector, ∃ path ∈ paths, Agrees vector path.bits) : Apart paths := by
  rw [Apart, List.pairwise_iff_getElem]
  intro i j hi hj less vector agrees again
  obtain ⟨k, -, -, -, unique⟩ := exists_position leaves leads agreeing vector
  have first := unique i _ (List.getElem?_eq_getElem hi) agrees
  have second := unique j _ (List.getElem?_eq_getElem hj) again
  omega

/-- The table of a subtree is filled without a vector that is covered twice, and holds for every
vector the number of the path that it agrees with. -/
theorem fillTable_of_leads {root levels : Nat} (few : levels ≤ 6) {paths : List LeafPath}
    (leaves : paths.map (·.leaf) = (bottom levels root).reverse)
    (leads : ∀ path ∈ paths, path.Leads root levels levels 0)
    (agreeing : ∀ vector, ∃ path ∈ paths, Agrees vector path.bits) :
    ∃ table, fillTable (2 ^ levels - 1) paths.length paths 0
        (Array.replicate (2 ^ (2 ^ levels - 1)) paths.length) = .ok table ∧
      table.size = 2 ^ (2 ^ levels - 1) ∧ ∀ vector < 2 ^ (2 ^ levels - 1), ∀ i path,
        paths[i]? = some path → Agrees vector path.bits → table[vector]? = some i := by
  obtain ⟨table, made, full, arms⟩ := @fillTable_eq _ paths.length _ (low32_treeNodes few).2
    (fun p hp => (leads p hp).sorted)
    (fun p hp e he => lt_treeNodes_iff.2 ((leads p hp).inside e he))
    (apart_of_leads leaves leads agreeing) 0
    (Array.replicate (2 ^ (2 ^ levels - 1)) paths.length) (by simp)
    fun vector less _ _ _ => by simp [less]
  refine ⟨table, made, full, fun vector less i path found agrees => ?_⟩
  rw [(arms vector less).2 i path found agrees, Nat.zero_add]

/-! ## The jump through a subtree -/

theorem testsFrom_eq {tree : Tree} {root : Nat} (count bit : Nat)
    (inside : ∀ b < bit + count, levelOf root + levelOf b < tree.depth) :
    ∃ tests, testsFrom tree root count bit = .ok tests ∧ tests.length = count ∧
      ∀ i < count, ∃ node, tests[i]? = some (subtreeNode root (bit + i), node) ∧
        tree.nodes[subtreeNode root (bit + i)]? = some node := by
  induction count generalizing bit with
  | zero => exact ⟨[], rfl, rfl, by simp⟩
  | succ count ih =>
    obtain ⟨tests, read, length, spec⟩ := ih (bit + 1) fun b hb => inside b (by omega)
    have level := inside bit (by omega)
    have depth := tree.depth_le
    have words : levelOf root + levelOf bit < 64 := by
      simp only [maxTreeDepth] at depth
      omega
    have bound : subtreeNode root bit < tree.nodes.size := by
      rw [← levelOf_subtreeNode, levelOf_lt_iff, ← treeNodes_add_one] at level
      rw [tree.size_eq]
      omega
    obtain ⟨node, hnode⟩ : ∃ node, tree.nodes[subtreeNode root bit]? = some node :=
      ⟨_, Array.getElem?_eq_getElem bound⟩
    refine ⟨(subtreeNode root bit, node) :: tests, ?_, by simp [length], ?_⟩
    · simp [testsFrom, Bounded.subtreeNode_eq words, Tree.node, hnode, read]
    · intro i hi
      cases i with
      | zero => exact ⟨node, by simpa using hnode⟩
      | succ i =>
        obtain ⟨node, hget, hnode⟩ := spec i (by omega)
        rw [Nat.add_right_comm, Nat.add_assoc] at hget hnode
        exact ⟨node, by simpa using hget, hnode⟩

/-- Every node of a subtree is numbered by its position among the tests. -/
theorem numbers_ofEntries {root levels : Nat} {tests : List (Nat × Node)}
    (length : tests.length = 2 ^ levels - 1)
    (spec : ∀ i < 2 ^ levels - 1, ∃ node, tests[i]? = some (subtreeNode root i, node)) :
    (Offsets.ofEntries (tests.zipIdx.map fun (test, bit) => (test.1, bit))).Numbers root
      levels := by
  intro bit level
  obtain ⟨node, hget⟩ := spec bit (lt_treeNodes_iff.2 level)
  apply Offsets.ofEntries_eq
  · exact List.mem_map.2 ⟨_, List.mk_mem_zipIdx_iff_getElem?.2 hget, rfl⟩
  · intro other hother
    obtain ⟨⟨⟨index, test⟩, position⟩, member, same⟩ := List.mem_map.1 hother
    obtain ⟨rfl, rfl⟩ : index = subtreeNode root bit ∧ position = other := by simpa using same
    have hpos := List.mk_mem_zipIdx_iff_getElem?.1 member
    have inside : position < 2 ^ levels - 1 := length ▸ (List.getElem?_eq_some_iff.1 hpos).1
    obtain ⟨_, again⟩ := spec position inside
    have : subtreeNode root bit = subtreeNode root position := by
      rw [hpos, Option.some.injEq, Prod.mk.injEq] at again
      exact again.1
    exact (subtreeNode_inj.1 this).symm

theorem Jump.of_eq {tree : Tree} {root levels : Nat} (deep : levelOf root + levels ≤ tree.depth)
    (few : levels ≤ 6) :
    ∃ jump, Jump.of tree root levels = .ok jump ∧ jump.Covers tree root levels := by
  obtain ⟨bits, small⟩ := low32_treeNodes few
  have depth := tree.depth_le
  simp only [maxTreeDepth] at depth
  obtain ⟨tests, readTests, length, spec⟩ := @testsFrom_eq tree root
    (2 ^ levels - 1) 0 fun b hb => by
      have := lt_treeNodes_iff.1 ((Nat.zero_add _).subst hb)
      omega
  simp only [Nat.zero_add] at spec
  have numbers := numbers_ofEntries length fun i hi => (spec i hi).imp fun _ h => h.1
  obtain ⟨paths, readPaths, leaves, leads, agreeing⟩ := leafPaths_eq numbers (by omega)
  obtain ⟨table, readTable, full, arms⟩ := fillTable_of_leads few leaves leads agreeing
  refine ⟨⟨tests.map (·.2), paths.map (·.leaf), table⟩, ?_, ?_, ?_, leaves, full, ?_⟩
  · simp only [Jump.of, Bounded.treeNodes_eq (show levels < 64 by omega), ok_bind, bits, readTests,
      readPaths, Nat.pow_eq, readTable, pure_eq_ok]
  · simpa using length
  · intro bit hb
    obtain ⟨node, hget, hnode⟩ := spec bit hb
    rw [List.getElem?_map, hget, hnode, Option.map_some]
  · intro vector less
    obtain ⟨path, member, agrees⟩ := agreeing vector
    obtain ⟨i, found⟩ := List.mem_iff_getElem?.1 member
    refine ⟨i, arms vector less i path found agrees, ?_⟩
    rw [List.getElem?_map, found, Option.map_some, (leads path member).leaf_eq vector agrees]

end Arbor.Evaluator
