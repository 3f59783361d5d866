import Arbor.Proofs.Evaluator.Coverage
import Arbor.Proofs.Evaluator.Partition

/-!
# Positions in a subtree

The node at a position of a subtree is computed from the levels of the root and of the position. The
computation leaves the words exactly if these levels do together. Where it does not, positions go
from parents to children as nodes do, positions below positions are positions, and the offsets of a
subtree give each of its nodes a bit of its own.

## Main statements

* `Index.subtreeNode_subtreeNode`: numbering composes.
* `Index.Bounded.subtreeNode_eq_ite`: where the numbering leaves the words.
* `Evaluator.Offsets.Numbers.bijOn`: the bits of a subtree are its positions.
* `Evaluator.positions_exact`: the numbering of a subtree within words.
-/

namespace Arbor

namespace Index

/-- A position below a position of a subtree is a position of the subtree. -/
theorem subtreeNode_subtreeNode (root bit below : Nat) :
    subtreeNode (subtreeNode root bit) below = subtreeNode root (subtreeNode bit below) := by
  induction below using child_induction with
  | root => simp
  | child outcome below ih => rw [subtreeNode_child, ih, subtreeNode_child, subtreeNode_child]

namespace Bounded

theorem levelOf_lt_of_lt {i : Nat} (word : i < 2 ^ 64 - 1) : Index.levelOf i < 64 :=
  levelOf_lt_iff.2 (by omega)

/-- There is no word for the first node of level 64, and this is all that can go wrong. -/
theorem subtreeNode_eq_ite {root bit : Nat} (root_lt : Index.levelOf root < 64)
    (bit_lt : Index.levelOf bit < 64) : subtreeNode root bit =
      if Index.levelOf root + Index.levelOf bit < 64 then .ok (Index.subtreeNode root bit)
      else .error .shiftOverflow := by
  split
  · next fits => exact subtreeNode_eq fits
  · next deep =>
    simp only [subtreeNode, levelOf_eq root_lt, levelOf_eq bit_lt, firstOnLevel_eq root_lt,
      nodesOnLevel_eq bit_lt, ok_bind, Index.firstOnLevel,
      Word.sub_of_le (treeNodes_levelOf_le root)]
    simp [firstOnLevel, treeNodes, Word.bit_of_le (Nat.le_of_not_lt deep)]

/-- The two ways to a position below a position leave the words together. -/
theorem subtreeNode_bind {root bit below : Nat} (root_lt : Index.levelOf root < 64)
    (bit_lt : Index.levelOf bit < 64) (below_lt : Index.levelOf below < 64) :
    (subtreeNode root bit >>= fun node => subtreeNode node below) =
      (subtreeNode bit below >>= fun position => subtreeNode root position) := by
  have upper := levelOf_subtreeNode root bit
  have lower := levelOf_subtreeNode bit below
  rw [subtreeNode_eq_ite root_lt bit_lt, subtreeNode_eq_ite bit_lt below_lt]
  by_cases all : Index.levelOf root + Index.levelOf bit + Index.levelOf below < 64
  · rw [if_pos (by omega), if_pos (by omega), ok_bind, ok_bind, subtreeNode_eq (by omega),
      subtreeNode_eq (by omega), subtreeNode_subtreeNode]
  · -- whichever side does not stop at once stops after its first step
    split <;> split <;>
      simp only [ok_bind, error_bind] <;>
      grind [subtreeNode_eq_ite]

end Bounded

end Index

open Index

namespace Evaluator

theorem ofEntries_ne_none {entries : List (Nat × Nat)} {node : Nat} :
    Offsets.ofEntries entries node ≠ none ↔ node ∈ entries.map Prod.fst := by
  simp [Offsets.ofEntries, Option.map_eq_none_iff]

/-- The bits of a subtree are its positions: every node has one, and every number below their count
belongs to one node. -/
theorem Offsets.Numbers.bijOn {offsets : Offsets} {root levels : Nat}
    (numbers : offsets.Numbers root levels) :
    Set.BijOn offsets {i | Within root levels i} (some '' Set.Iio (2 ^ levels - 1)) := by
  have bit_of {i : Nat} (within : Within root levels i) :
      ∃ bit < 2 ^ levels - 1, subtreeNode root bit = i ∧ offsets i = some bit := by
    obtain ⟨bit, inside, rfl⟩ := List.mem_map.1 (mem_map_subtreeNode.2 within)
    have less := List.mem_range.1 inside
    exact ⟨bit, less, rfl, numbers bit (lt_treeNodes_iff.1 less)⟩
  refine ⟨fun i within => ?_, fun i first j second same => ?_, ?_⟩
  · obtain ⟨bit, less, -, read⟩ := bit_of within
    exact ⟨bit, less, read.symm⟩
  · obtain ⟨bit, -, rfl, read⟩ := bit_of first
    obtain ⟨other, -, rfl, again⟩ := bit_of second
    rw [read, again, Option.some.injEq] at same
    rw [same]
  · rintro _ ⟨bit, less, rfl⟩
    refine ⟨subtreeNode root bit, ?_, numbers bit (lt_treeNodes_iff.1 less)⟩
    exact mem_map_subtreeNode.1 (List.mem_map_of_mem (List.mem_range.2 less))

/-- Within words, the node at a position of a subtree is computed without a fault unless its level
is 64 or more, and then a shift is the fault. Position 0 is the root, the children of a position are
those of its node, and going on from a position is going to the position below it. As many bits as a
subtree has nodes are given to these nodes, each to one, and to no other node. -/
theorem positions_exact {root : Nat} (word : root < 2 ^ 64 - 1) :
    (∀ bit < 2 ^ 32,
      (∀ fault, Bounded.subtreeNode root bit = .error fault ↔
        fault = .shiftOverflow ∧ 64 ≤ levelOf root + levelOf bit) ∧
      (levelOf root + levelOf bit < 64 → ∃ node, Bounded.subtreeNode root bit = .ok node ∧
        node + 1 = (root + 1) * 2 ^ levelOf bit + (bit + 1 - 2 ^ levelOf bit))) ∧
    Bounded.subtreeNode root 0 = .ok root ∧
    (∀ bit, levelOf root + (levelOf bit + 1) < 64 → ∃ node onFalse onTrue,
      Bounded.subtreeNode root bit = .ok node ∧ Bounded.children node = .ok (onFalse, onTrue) ∧
      Bounded.subtreeNode root (2 * bit + 1) = .ok onFalse ∧
      Bounded.subtreeNode root (2 * bit + 2) = .ok onTrue) ∧
    (∀ bit < 2 ^ 32, ∀ below < 2 ^ 32,
      (Bounded.subtreeNode root bit >>= fun node => Bounded.subtreeNode node below) =
        (Bounded.subtreeNode bit below >>= fun position => Bounded.subtreeNode root position)) ∧
    ∀ levels ≤ 32, levelOf root + levels ≤ 64 → ∃ entries,
      subtreeEntries root levels = .ok entries ∧
      Set.BijOn (Offsets.ofEntries entries) {i | Within root levels i}
        (some '' Set.Iio (2 ^ levels - 1)) ∧
      ∀ i, Offsets.ofEntries entries i ≠ none ↔ Within root levels i := by
  have root_lt := Bounded.levelOf_lt_of_lt word
  have word_of {bit : Nat} (short : bit < 2 ^ 32) : levelOf bit < 64 :=
    Bounded.levelOf_lt_of_lt (by omega)
  refine ⟨fun bit short => ⟨fun fault => ?_, fun fits => ?_⟩, ?_, fun bit fits => ?_, ?_, ?_⟩
  · rw [Bounded.subtreeNode_eq_ite root_lt (word_of short)]
    grind
  · exact ⟨_, Bounded.subtreeNode_eq fits, subtreeNode_add_one root bit⟩
  · rw [Bounded.subtreeNode_eq (by simpa using root_lt), subtreeNode_zero]
  · have level := levelOf_subtreeNode root bit
    refine ⟨_, _, _, Bounded.subtreeNode_eq (by omega), Bounded.children_eq (by omega), ?_, ?_⟩
    · rw [← subtreeNode_falseChild, ← falseChild]
      exact Bounded.subtreeNode_eq (by rwa [levelOf_falseChild])
    · rw [← subtreeNode_trueChild, ← trueChild]
      exact Bounded.subtreeNode_eq (by rwa [levelOf_trueChild])
  · intro bit short below also
    exact Bounded.subtreeNode_bind root_lt (word_of short) (word_of also)
  · intro levels few deep
    refine ⟨_, subtreeEntries_eq few deep, (numbers_subtree root levels).bijOn, fun i => ?_⟩
    rw [ofEntries_ne_none, List.map_map, ← mem_map_subtreeNode]
    rfl

/-- The last nodes of level 32, of level 31 and of level 63. A step further there is no word. -/
theorem positions_exact_last : 2 ^ 33 - 2 < 2 ^ 64 - 1 ∧
    Bounded.subtreeNode (2 ^ 33 - 2) (2 ^ 32 - 2) = .ok (2 ^ 64 - 2) ∧
    Bounded.subtreeNode (2 ^ 33 - 2) (2 ^ 32 - 1) = .error .shiftOverflow ∧
    ∃ entries, subtreeEntries (2 ^ 33 - 2) 32 = .ok entries ∧
      Set.BijOn (Offsets.ofEntries entries) {i | Within (2 ^ 33 - 2) 32 i}
        (some '' Set.Iio (2 ^ 32 - 1)) := by
  have word : 2 ^ 33 - 2 < 2 ^ 64 - 1 := by decide
  obtain ⟨nodes, -, -, -, bits⟩ := positions_exact word
  obtain ⟨node, read, number⟩ := (nodes (2 ^ 32 - 2) (by decide)).2 (by decide)
  have last : (2 ^ 33 - 2 + 1) * 2 ^ levelOf (2 ^ 32 - 2) +
      (2 ^ 32 - 2 + 1 - 2 ^ levelOf (2 ^ 32 - 2)) = 2 ^ 64 - 2 + 1 := by decide
  obtain rfl : node = 2 ^ 64 - 2 := Nat.succ_injective (number.trans last)
  obtain ⟨entries, made, bijective, -⟩ := bits 32 (by decide) (by decide)
  exact ⟨word, read, ((nodes (2 ^ 32 - 1) (by decide)).1 _).2 (by decide), entries, made, bijective⟩

end Evaluator

end Arbor
