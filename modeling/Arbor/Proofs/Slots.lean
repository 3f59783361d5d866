import Arbor.Proofs.Layout

/-!
# Slots without holes

The level starts, the count of the functions, the list of the boundary nodes and the slot of a node
are computed apart from each other. They agree for every depth that words have room for, whether it
is filled by whole functions or not: slots are positions in the list, the count is its length, and
no other node has a slot.

## Main statements

* `Layout.slot_of_getElem?`, `Layout.slot_of_not_mem`: which nodes have a slot, and which one.
* `Layout.start_mul`: how many functions fill a tree.
* `Layout.slots_dense`: all computations agree.
-/

namespace Arbor.Layout

open Index

variable {treeDepth functionDepth : Nat}

/-- Boundary nodes are words, also if they are counted from one. -/
theorem levelOf_lt_of_mem (pos : 0 < functionDepth) (depth : treeDepth ≤ 63) {index : Nat}
    (member : index ∈ (regular treeDepth functionDepth).nodes) : levelOf index < 63 :=
  ((mem_nodes pos).1 member).1.trans_le depth

theorem isBoundary_iff_mem (pos : 0 < functionDepth) (depth : treeDepth ≤ 63) {index : Nat} :
    (regular treeDepth functionDepth).isBoundary index = .ok true ↔
      index ∈ (regular treeDepth functionDepth).nodes := by
  by_cases word : levelOf index < 64
  · rw [isBoundary_eq pos word, mem_nodes pos, Except.ok.injEq, decide_eq_true_eq]
  · have wide : ¬ index + 1 < Word.limit := fun fits => word (levelOf_lt_iff.2 fits)
    constructor
    · intro boundary
      simp [isBoundary, Bounded.levelOf, Word.add, wide] at boundary
    · intro member
      have := levelOf_lt_of_mem pos depth member
      omega

/-- The slot of a boundary node is its position. -/
theorem slot_of_getElem? (pos : 0 < functionDepth) (depth : treeDepth ≤ 63) {index slot : Nat}
    (listed : (regular treeDepth functionDepth).nodes[slot]? = some index) :
    (regular treeDepth functionDepth).slot index = .ok slot := by
  obtain ⟨inner, position, level⟩ := (mem_nodes pos).1 (List.mem_of_getElem? listed)
  have same := getElem?_nodes pos level inner
  have inside := (List.getElem?_eq_some_iff.1 listed).1
  rw [slot_eq pos depth level inner,
    (List.getElem?_inj inside (nodup_nodes pos)).1 (listed.trans same.symm)]

/-- A node between two boundary levels, or one below all of them, has no slot. -/
theorem slot_of_not_mem (pos : 0 < functionDepth) {index : Nat} (word : levelOf index < 64)
    (other : index ∉ (regular treeDepth functionDepth).nodes) :
    (regular treeDepth functionDepth).slot index =
      if functionDepth ∣ levelOf index then
        .error (.outOfBounds (levelCount treeDepth functionDepth) (levelOf index / functionDepth))
      else .error (.notBoundary index) := by
  split
  · next multiple =>
    obtain ⟨position, level⟩ := multiple
    have below : levelCount treeDepth functionDepth ≤ position := by
      by_contra above
      refine other ((mem_nodes pos).2 ⟨?_, position, level⟩)
      rw [level]
      exact (lt_levelCount_iff pos).1 (Nat.not_le.1 above)
    simp [slot, regular, Bounded.levelOf_eq word, Word.rem_of_pos pos, level,
      Nat.mul_div_cancel_left position pos, Nat.not_lt.2 below]
  · next between =>
    rw [Nat.dvd_iff_mod_eq_zero] at between
    simp [slot, regular, Bounded.levelOf_eq word, Word.rem_of_pos pos, between]

/-- As many functions as fill some levels have as many nodes as these levels. -/
theorem start_mul (functionDepth position : Nat) :
    start functionDepth position * (2 ^ functionDepth - 1) + 1 =
      2 ^ (functionDepth * position) := by
  induction position with
  | zero => simp [start]
  | succ position ih =>
    have one := Nat.two_pow_pos functionDepth
    calc start functionDepth (position + 1) * (2 ^ functionDepth - 1) + 1
        = (start functionDepth position * (2 ^ functionDepth - 1) + 1) +
            2 ^ (functionDepth * position) * (2 ^ functionDepth - 1) := by rw [start]; ring
      _ = 2 ^ (functionDepth * position) * (2 ^ functionDepth - 1 + 1) := by rw [ih]; ring
      _ = 2 ^ (functionDepth * (position + 1)) := by
        rw [Nat.sub_add_cancel one, Nat.mul_succ, Nat.pow_add]

theorem length_nodes_mul (pos : 0 < functionDepth) (chunks : functionDepth ∣ treeDepth) :
    (regular treeDepth functionDepth).nodes.length * (2 ^ functionDepth - 1) =
      2 ^ treeDepth - 1 := by
  obtain ⟨count, rfl⟩ := chunks
  have filled := start_mul functionDepth count
  rw [length_nodes, Nat.mul_comm functionDepth count, levelCount_mul pos, Nat.mul_comm count]
  omega

/-- After each boundary level, the next one would still be a word of 32 bits. -/
theorem next_level_lt (pos : 0 < functionDepth) (depth : treeDepth ≤ 63)
    (word : functionDepth < 2 ^ 32) {level : Nat}
    (member : level ∈ (regular treeDepth functionDepth).levels) :
    level + functionDepth < 2 ^ 32 := by
  obtain ⟨position, inside, rfl⟩ := List.mem_map.1 member
  have inner := (lt_levelCount_iff pos).1 (List.mem_range.1 inside)
  simp only [regular] at *
  cases position with
  | zero => omega
  | succ position =>
    rw [Nat.mul_succ] at inner ⊢
    omega

/-- A layout of at most 63 levels is made without a fault, whether functions fill the levels or not,
and stepping from level to level does not leave the words of 32 bits. Its boundary nodes are listed
in increasing order, are counted, and have their positions as slots. All other nodes are refused:
those between two boundary levels as such, and those below all boundary levels because there is no
start for their level. -/
theorem slots_dense (depth : treeDepth ≤ 63) (pos : 1 ≤ functionDepth) :
    ∃ layout nodes, Layout.of treeDepth functionDepth = .ok layout ∧
      (functionDepth < 2 ^ 32 → ∀ level ∈ layout.levels, level + functionDepth < 2 ^ 32) ∧
      layout.allNodes = .ok nodes ∧
      nodes.Pairwise (· < ·) ∧
      (∀ index ∈ nodes, index + 1 < 2 ^ 64) ∧
      (∀ index, index ∈ nodes ↔ layout.isBoundary index = .ok true) ∧
      (∀ index, index + 1 < 2 ^ 64 → ∃ boundary, layout.isBoundary index = .ok boundary) ∧
      layout.size = .ok nodes.length ∧
      functionCount treeDepth functionDepth = .ok nodes.length ∧
      (∀ slot index, nodes[slot]? = some index → layout.slot index = .ok slot) ∧
      (∀ index, index + 1 < 2 ^ 64 → index ∉ nodes → layout.slot index =
        if functionDepth ∣ levelOf index then
          .error (.outOfBounds layout.levelStarts.size (levelOf index / functionDepth))
        else .error (.notBoundary index)) ∧
      (functionDepth ∣ treeDepth →
        nodes.length * (2 ^ functionDepth - 1) = 2 ^ treeDepth - 1) := by
  refine ⟨regular treeDepth functionDepth, _, of_eq pos depth,
    fun word _ => next_level_lt pos depth word, if_neg (Nat.ne_of_gt pos), pairwise_nodes pos, ?_,
    fun _ => (isBoundary_iff_mem pos depth).symm, ?_, functionCount_eq pos depth,
    functionCount_eq pos depth, fun _ _ => slot_of_getElem? pos depth, ?_, length_nodes_mul pos⟩
  · intro index member
    exact levelOf_lt_iff.1 ((levelOf_lt_of_mem pos depth member).trans (by decide))
  · intro index word
    exact ⟨_, isBoundary_eq pos (levelOf_lt_iff.2 word)⟩
  · intro index word other
    rw [slot_of_not_mem pos (levelOf_lt_iff.2 word) other]
    simp [regular]

/-- Functions of four levels do not fill six levels. Node 31 is not on a multiple of four levels,
and node 255 is on one below the leaves. -/
theorem slots_dense_uneven : ∃ layout, Layout.of 6 4 = .ok layout ∧
    layout.allNodes = .ok (0 :: List.range' 15 16) ∧ layout.size = .ok 17 ∧
    layout.slot 30 = .ok 16 ∧ layout.slot 31 = .error (.notBoundary 31) ∧
    layout.slot 255 = .error (.outOfBounds 2 2) := by
  obtain ⟨layout, nodes, made, -, listed, -, -, -, -, size, -, slots, others, -⟩ :=
    @slots_dense 6 4 (by decide) (by decide)
  obtain rfl : ⟨6, 4, #[0, 1]⟩ = layout := Except.ok.inj made
  obtain rfl : 0 :: List.range' 15 16 = nodes := Except.ok.inj listed
  exact ⟨_, made, listed, size, slots 16 30 rfl, others 31 (by decide) (by decide),
    others 255 (by decide) (by decide)⟩

end Arbor.Layout
