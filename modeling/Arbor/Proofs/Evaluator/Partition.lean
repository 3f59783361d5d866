import Arbor.Proofs.Evaluator.Jump

/-!
# Case labels partition the condition vectors

The variants of the paths through a subtree are the case labels of its jump table. Each vector is
the label of one path and stands once among its variants, and every path has equally many.

## Main definitions

* `Offsets.outcome`: the outcomes that a condition vector gives the nodes of a subtree.

## Main statements

* `subtreeEntries_eq`: the nodes of a subtree and their bits.
* `labels_partition`: every vector belongs to the path that it leads along, and to no other.
-/

namespace Arbor.Evaluator

open Index PathBits

/-! ## The bits of a subtree -/

theorem entriesFrom_eq {root : Nat} (count bit : Nat)
    (words : ∀ b < bit + count, levelOf root + levelOf b < 64) :
    entriesFrom root count bit =
      .ok ((List.range' bit count).map fun b => (subtreeNode root b, b)) := by
  induction count generalizing bit with
  | zero => rfl
  | succ count ih =>
    have next := ih (bit + 1) fun b hb => words b (by omega)
    simp [entriesFrom, Bounded.subtreeNode_eq (words bit (by omega)), next, List.range'_succ]

theorem subtreeEntries_eq {root levels : Nat} (few : levels ≤ 32)
    (deep : levelOf root + levels ≤ 64) :
    subtreeEntries root levels =
      .ok ((List.range (2 ^ levels - 1)).map fun bit => (subtreeNode root bit, bit)) := by
  have bits : Word.low32 (treeNodes levels) = 2 ^ levels - 1 := by
    have : 2 ^ levels ≤ 2 ^ 32 := Nat.pow_le_pow_right Nat.two_pos few
    exact Nat.mod_eq_of_lt (show 2 ^ levels - 1 < 2 ^ 32 by omega)
  have words : ∀ bit < 0 + (2 ^ levels - 1), levelOf root + levelOf bit < 64 := by
    intro bit hb
    have := lt_treeNodes_iff.1 ((Nat.zero_add _).subst hb)
    omega
  simp only [subtreeEntries, Bounded.treeNodes_eq (show levels < 64 by omega), ok_bind, bits,
    entriesFrom_eq _ _ words, List.range_eq_range']

theorem numbers_subtree (root levels : Nat) :
    (Offsets.ofEntries ((List.range (2 ^ levels - 1)).map fun bit =>
      (subtreeNode root bit, bit))).Numbers root levels := by
  intro bit level
  apply Offsets.ofEntries_eq
  · exact List.mem_map.2 ⟨bit, List.mem_range.2 (lt_treeNodes_iff.2 level), rfl⟩
  · intro other member
    obtain ⟨position, -, same⟩ := List.mem_map.1 member
    obtain ⟨node, rfl⟩ : subtreeNode root position = subtreeNode root bit ∧ position = other := by
      simpa using same
    exact subtreeNode_inj.1 node

/-- The outcome that a condition vector gives a node: its bit, and false for a node without one. -/
def Offsets.outcome (offsets : Offsets) (vector node : Nat) : Bool :=
  (offsets node).any vector.testBit

/-- Descending by positions with the bits of a vector is descending with the outcomes that the
vector gives the nodes. -/
theorem Offsets.Numbers.descend_eq {offsets : Offsets} {root levels : Nat}
    (numbers : offsets.Numbers root levels) (vector : Nat) :
    subtreeNode root (descend vector.testBit levels 0) =
      descend (offsets.outcome vector) levels root := by
  conv_rhs => rw [← subtreeNode_zero root, descend_subtreeNode]
  congr 1
  apply descend_congr
  intro bit level
  rw [levelOf_zero, Nat.zero_add] at level
  simp [outcome, numbers bit level]

/-! ## The partition -/

/-- Every condition vector of a subtree is a variant of one path, once, and it leads to the exit of
this path. Every path has the same number of variants. So no entry of the jump table is set twice,
and each holds the number of the path that its vector belongs to. -/
theorem labels_partition {root levels : Nat} (few : levels ≤ 6)
    (deep : levelOf root + levels ≤ 63) :
    ∃ entries paths, subtreeEntries root levels = .ok entries ∧
      leafPaths root levels (.ofEntries entries) = .ok paths ∧
      (∀ path ∈ paths, ∃ vectors, variants (2 ^ levels - 1) path.bits = .ok vectors ∧
        vectors.length = 2 ^ (2 ^ levels - 1 - levels) ∧
        ∀ vector ∈ vectors, vector < 2 ^ (2 ^ levels - 1)) ∧
      ∃ table, fillTable (2 ^ levels - 1) paths.length paths 0
          (Array.replicate (2 ^ (2 ^ levels - 1)) paths.length) = .ok table ∧
      ∀ vector < 2 ^ (2 ^ levels - 1), ∃ (i : Nat) (path : LeafPath) (vectors : List Nat),
        paths[i]? = some path ∧ table[vector]? = some i ∧
        variants (2 ^ levels - 1) path.bits = .ok vectors ∧ vectors.count vector = 1 ∧
        path.leaf = descend (Offsets.outcome (.ofEntries entries) vector) levels root ∧
        ∀ (j : Nat) (other : LeafPath) (others : List Nat), paths[j]? = some other →
          variants (2 ^ levels - 1) other.bits = .ok others → vector ∈ others → j = i := by
  obtain ⟨-, small⟩ := low32_treeNodes few
  have numbers := numbers_subtree root levels
  obtain ⟨paths, read, leaves, leads, agreeing⟩ := leafPaths_eq numbers (by omega)
  have inside : ∀ path ∈ paths, ∀ entry ∈ path.bits, entry.1 < 2 ^ levels - 1 :=
    fun path member entry he => lt_treeNodes_iff.2 ((leads path member).inside entry he)
  have expand : ∀ path ∈ paths, ∃ vectors, variants (2 ^ levels - 1) path.bits = .ok vectors ∧
      ∀ vector, vector ∈ vectors ↔ vector < 2 ^ (2 ^ levels - 1) ∧ Agrees vector path.bits :=
    fun path member => mem_variants small (leads path member).sorted (inside path member)
  obtain ⟨table, filled, -, arms⟩ := fillTable_of_leads few leaves leads agreeing
  refine ⟨_, paths, subtreeEntries_eq (by omega) (by omega), read, fun path member => ?_, table,
    filled, ?_⟩
  · obtain ⟨vectors, expanded, mem⟩ := expand path member
    have length := length_variants expanded (leads path member).sorted (inside path member)
    rw [(leads path member).length_eq] at length
    exact ⟨vectors, expanded, length, fun vector hv => ((mem vector).1 hv).1⟩
  · intro vector less
    obtain ⟨i, path, found, agrees, unique⟩ := exists_position leaves leads agreeing vector
    have member := List.mem_of_getElem? found
    obtain ⟨vectors, expanded, mem⟩ := expand path member
    have distinct := nodup_variants expanded fun e he => (inside path member e he).trans small
    refine ⟨i, path, vectors, found, arms vector less i path found agrees, expanded, ?_, ?_, ?_⟩
    · exact List.count_eq_one_of_mem distinct ((mem vector).2 ⟨less, agrees⟩)
    · rw [(leads path member).leaf_eq vector agrees, numbers.descend_eq]
    · intro j other others foundOther expandedOther hv
      obtain ⟨same, again, memOther⟩ := expand other (List.mem_of_getElem? foundOther)
      obtain rfl := Except.ok.inj (expandedOther.symm.trans again)
      exact unique j other foundOther ((memOther vector).1 hv).2

/-- Six levels below the fifth node from the left on level 57. -/
theorem labels_partition_deepest : levelOf (2 ^ 57 + 3) + 6 ≤ 63 ∧
    ∃ entries paths, subtreeEntries (2 ^ 57 + 3) 6 = .ok entries ∧
      leafPaths (2 ^ 57 + 3) 6 (.ofEntries entries) = .ok paths ∧
      ∃ (i : Nat) (path : LeafPath) (vectors : List Nat), paths[i]? = some path ∧
        variants 63 path.bits = .ok vectors ∧ vectors.count 0x5555555555555555 = 1 ∧
        path.leaf =
          descend (Offsets.outcome (.ofEntries entries) 0x5555555555555555) 6 (2 ^ 57 + 3) := by
  have deep : levelOf (2 ^ 57 + 3) + 6 ≤ 63 := by decide
  obtain ⟨entries, paths, bits, read, -, table, -, owner⟩ := labels_partition (Nat.le_refl 6) deep
  obtain ⟨i, path, vectors, found, -, expanded, once, exit, -⟩ :=
    owner 0x5555555555555555 (by decide)
  exact ⟨deep, entries, paths, bits, read, i, path, vectors, found, expanded, once, exit⟩

end Arbor.Evaluator
