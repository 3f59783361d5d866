import Arbor.Layout
import Arbor.Proofs.Numbering
import Arbor.Proofs.Outcome
import Mathlib.Data.List.Nodup

/-!
# Slots of boundary nodes

The boundary level with number `i` is level `F * i` of the tree, and its nodes take the `2 ^ (F *
i)` slots from `start F i` on. So the slots of a layout are the positions of its boundary nodes.

## Main statements

* `levels_eq`: the boundary levels are the multiples of the function depth.
* `of_eq`: a layout of at most 63 levels exists, and its level starts are those of `start`.
* `mem_nodes`, `pairwise_nodes`: the boundary nodes, each once and in increasing order.
* `functionCount_eq`: how many boundary nodes there are.
* `slot_eq`, `getElem?_nodes`: the slot of a boundary node, and the node at that position.
-/

namespace Arbor.Layout

open Index

variable {treeDepth functionDepth : Nat}

/-- The slot of the leftmost node on the boundary level with number `position`. -/
def start (functionDepth : Nat) : (position : Nat) → Nat
  | 0 => 0
  | position + 1 => start functionDepth position + 2 ^ (functionDepth * position)

/-- The layout in which every level starts where the one above it ends. -/
def regular (treeDepth functionDepth : Nat) : Layout :=
  ⟨treeDepth, functionDepth,
    ((List.range (levelCount treeDepth functionDepth)).map (start functionDepth)).toArray⟩

theorem start_lt (pos : 0 < functionDepth) (position : Nat) :
    start functionDepth position < 2 ^ (functionDepth * position) := by
  induction position with
  | zero => simp [start]
  | succ position ih =>
    have wider : 2 ^ (functionDepth * position + 1) ≤ 2 ^ (functionDepth * (position + 1)) :=
      Nat.pow_le_pow_right Nat.two_pos (by rw [Nat.mul_succ]; omega)
    rw [Nat.pow_succ] at wider
    rw [start]
    omega

theorem lt_levelCount_iff (pos : 0 < functionDepth) {position : Nat} :
    position < levelCount treeDepth functionDepth ↔ functionDepth * position < treeDepth := by
  rw [levelCount, Nat.lt_iff_add_one_le, Nat.le_div_iff_mul_le pos, Nat.succ_mul, Nat.mul_comm]
  omega

theorem levelCount_mul (pos : 0 < functionDepth) (count : Nat) :
    levelCount (count * functionDepth) functionDepth = count := by
  rw [levelCount, Nat.add_sub_assoc pos, Nat.mul_comm, Nat.mul_add_div pos,
    Nat.div_eq_of_lt (by omega), Nat.add_zero]

theorem levelCount_succ (pos : 0 < functionDepth) (depth : Nat) :
    levelCount (depth + 1) functionDepth =
      levelCount depth functionDepth + if functionDepth ∣ depth then 1 else 0 := by
  have next : depth + 1 + functionDepth - 1 = depth + functionDepth - 1 + 1 := by omega
  have same : depth + functionDepth - 1 + 1 = depth + functionDepth := by omega
  rw [levelCount, levelCount, next, Nat.succ_div, same]
  simp only [Nat.dvd_add_self_right]

/-- The multiples of a number below a bound. -/
theorem filter_range_mod (pos : 0 < functionDepth) (bound : Nat) :
    (List.range bound).filter (· % functionDepth == 0) =
      (List.range (levelCount bound functionDepth)).map (· * functionDepth) := by
  induction bound with
  | zero =>
    have empty : levelCount 0 functionDepth = 0 := by simpa using levelCount_mul pos 0
    simp [empty]
  | succ bound ih =>
    rw [List.range_succ, List.filter_append, ih, levelCount_succ pos]
    split
    · next multiple =>
      obtain ⟨count, rfl⟩ := multiple
      rw [Nat.mul_comm, levelCount_mul pos, List.range_succ, List.map_append]
      simp
    · next between =>
      rw [Nat.add_zero, List.filter_eq_nil_iff.2, List.append_nil]
      simpa [Nat.dvd_iff_mod_eq_zero] using between

/-- The boundary levels are the multiples of the function depth above the leaves. -/
theorem levels_eq {layout : Layout} (pos : 0 < layout.functionDepth) :
    layout.levels = (List.range layout.treeDepth).filter (· % layout.functionDepth == 0) := by
  rw [filter_range_mod pos, levels]
  exact List.map_congr_left fun position _ => Nat.mul_comm _ _

/-! ## Existence -/

theorem start_add_lt_limit (pos : 0 < functionDepth) {position : Nat}
    (word : functionDepth * position < 64) :
    start functionDepth position + 2 ^ (functionDepth * position) < Word.limit := by
  have := start_lt pos position
  have : 2 ^ (functionDepth * position) ≤ 2 ^ 63 := Nat.pow_le_pow_right Nat.two_pos (by omega)
  rw [Bounded.limit_eq]
  omega

theorem startsFrom_eq (pos : 0 < functionDepth) (depth : treeDepth ≤ 63)
    {bound count position : Nat} (all : position + count = levelCount treeDepth functionDepth)
    (enough : count ≤ bound) :
    startsFrom treeDepth functionDepth bound (functionDepth * position)
        (start functionDepth position) =
      .ok ((List.range' position count).map (start functionDepth)) := by
  induction bound generalizing count position with
  | zero =>
    obtain rfl : count = 0 := by omega
    rfl
  | succ bound ih =>
    cases count with
    | zero =>
      have past : ¬ functionDepth * position < treeDepth := by
        rw [← lt_levelCount_iff pos]
        omega
      rw [startsFrom, if_neg past]
      rfl
    | succ count =>
      have inner : functionDepth * position < treeDepth := (lt_levelCount_iff pos).1 (by omega)
      have word : functionDepth * position < 64 := by omega
      have rest := @ih count (position + 1) (by omega) (by omega)
      rw [start, Nat.mul_succ] at rest
      simp [startsFrom, inner, Word.bit_of_lt word, Nat.pow_eq,
        Word.add_of_lt (start_add_lt_limit pos word), rest, List.range'_succ]

theorem levelCount_le (pos : 0 < functionDepth) :
    levelCount treeDepth functionDepth ≤ treeDepth := by
  by_contra deeper
  have inner := (lt_levelCount_iff pos).1 (Nat.not_le.1 deeper)
  have := Nat.le_mul_of_pos_left treeDepth pos
  omega

theorem of_eq (pos : 0 < functionDepth) (depth : treeDepth ≤ 63) :
    Layout.of treeDepth functionDepth = .ok (regular treeDepth functionDepth) := by
  have starts := @startsFrom_eq treeDepth functionDepth pos depth treeDepth
    (levelCount treeDepth functionDepth) 0 (Nat.zero_add _) (levelCount_le pos)
  rw [Nat.mul_zero, start] at starts
  simp [Layout.of, Nat.ne_of_gt pos, starts, regular, List.range_eq_range']

/-! ## Slots and positions -/

theorem isBoundary_eq (pos : 0 < functionDepth) {index : Nat} (words : levelOf index < 64) :
    (regular treeDepth functionDepth).isBoundary index =
      .ok (decide (levelOf index < treeDepth ∧ functionDepth ∣ levelOf index)) := by
  by_cases inner : levelOf index < treeDepth
  · simp [isBoundary, Bounded.levelOf_eq words, regular, inner, Word.rem, Nat.ne_of_gt pos,
      Nat.dvd_iff_mod_eq_zero]
    rfl
  · simp [isBoundary, Bounded.levelOf_eq words, regular, inner]

theorem slot_eq (pos : 0 < functionDepth) (depth : treeDepth ≤ 63) {index position : Nat}
    (level : levelOf index = functionDepth * position) (inner : levelOf index < treeDepth) :
    (regular treeDepth functionDepth).slot index =
      .ok (start functionDepth position + (index - treeNodes (functionDepth * position))) := by
  have words : functionDepth * position < 64 := by omega
  obtain ⟨low, high⟩ := levelOf_eq_iff.1 level
  have first := treeNodes_add_one (functionDepth * position)
  have inside : position < levelCount treeDepth functionDepth :=
    (lt_levelCount_iff pos).2 (by omega)
  have fits : start functionDepth position + index < Word.limit := by
    have := start_lt pos position
    have : 2 ^ (functionDepth * position) ≤ 2 ^ 62 := Nat.pow_le_pow_right Nat.two_pos (by omega)
    rw [Nat.pow_succ] at high
    rw [Bounded.limit_eq]
    omega
  simp only [slot, regular, Bounded.levelOf_eq (level ▸ words), ok_bind, Word.rem,
    Nat.ne_of_gt pos, if_false, level, Nat.mul_mod_right, ne_eq, not_true, pure_eq_ok,
    Nat.mul_div_cancel_left position pos, List.getElem?_toArray, List.getElem?_map,
    List.getElem?_range inside, Option.map_some, Word.add_of_lt fits,
    Bounded.firstOnLevel_eq words, firstOnLevel, Except.ok.injEq]
  omega

theorem nodes_eq : (regular treeDepth functionDepth).nodes =
    (List.range (levelCount treeDepth functionDepth)).flatMap fun position =>
      List.range' (treeNodes (functionDepth * position)) (2 ^ (functionDepth * position)) := by
  simp [nodes, levels, regular, List.flatMap_map, nodesOnLevel, firstOnLevel]

/-- The root comes first. -/
theorem exists_nodes_eq_cons (tree : 0 < treeDepth) (pos : 0 < functionDepth) :
    ∃ others, (regular treeDepth functionDepth).nodes = 0 :: others := by
  have levels : 0 < levelCount treeDepth functionDepth := (lt_levelCount_iff pos).2 (by simpa)
  obtain ⟨count, full⟩ := Nat.exists_eq_succ_of_ne_zero levels.ne'
  rw [nodes_eq, full, List.range_succ_eq_map, List.flatMap_cons]
  exact ⟨_, rfl⟩

theorem mem_level {level index : Nat} :
    index ∈ List.range' (treeNodes level) (2 ^ level) ↔ levelOf index = level := by
  have first := treeNodes_add_one level
  rw [List.mem_range'_1, levelOf_eq_iff, Nat.pow_succ]
  omega

theorem mem_nodes (pos : 0 < functionDepth) {index : Nat} :
    index ∈ (regular treeDepth functionDepth).nodes ↔
      levelOf index < treeDepth ∧ functionDepth ∣ levelOf index := by
  rw [nodes, @levels_eq (regular treeDepth functionDepth) pos]
  simp only [List.mem_flatMap, List.mem_filter, List.mem_range, beq_iff_eq, firstOnLevel,
    nodesOnLevel, Nat.pow_eq, mem_level, exists_eq_right', regular, Nat.dvd_iff_mod_eq_zero]

/-- Below a boundary node there are the levels of a whole function. -/
theorem level_add_le (pos : 0 < functionDepth) (chunks : functionDepth ∣ treeDepth) {index : Nat}
    (member : index ∈ (regular treeDepth functionDepth).nodes) :
    levelOf index + functionDepth ≤ treeDepth := by
  obtain ⟨inner, position, level⟩ := (mem_nodes pos).1 member
  obtain ⟨count, rfl⟩ := chunks
  rw [level] at inner ⊢
  rw [← Nat.mul_succ]
  exact Nat.mul_le_mul_left _ (Nat.lt_of_mul_lt_mul_left inner)

theorem pairwise_nodes (pos : 0 < functionDepth) :
    (regular treeDepth functionDepth).nodes.Pairwise (· < ·) := by
  rw [nodes_eq, List.pairwise_flatMap]
  refine ⟨fun position _ => List.pairwise_lt_range', List.pairwise_lt_range.imp ?_⟩
  intro position other less index here later there
  apply lt_of_levelOf_lt
  rw [mem_level.1 here, mem_level.1 there]
  exact Nat.mul_lt_mul_of_pos_left less pos

theorem nodup_nodes (pos : 0 < functionDepth) :
    (regular treeDepth functionDepth).nodes.Nodup :=
  (pairwise_nodes pos).imp Nat.ne_of_lt

theorem length_flatMap_range (count : Nat) :
    ((List.range count).flatMap fun position =>
      List.range' (treeNodes (functionDepth * position)) (2 ^ (functionDepth * position))).length =
    start functionDepth count := by
  induction count with
  | zero => rfl
  | succ count ih => simp [List.range_succ, List.flatMap_append, ih, start]

theorem length_nodes : (regular treeDepth functionDepth).nodes.length =
    start functionDepth (levelCount treeDepth functionDepth) := by
  rw [nodes_eq, length_flatMap_range]

theorem countFrom_eq (pos : 0 < functionDepth) (count position : Nat)
    (words : ∀ i < position + count, functionDepth * i < 64) :
    countFrom functionDepth count (functionDepth * position) (start functionDepth position) =
      .ok (start functionDepth (position + count)) := by
  induction count generalizing position with
  | zero => rfl
  | succ count ih =>
    have word := words position (by omega)
    have rest := ih (position + 1) fun i hi => words i (by omega)
    rw [start, Nat.mul_succ, Nat.succ_add_eq_add_succ] at rest
    simp [countFrom, Word.bit_of_lt word, Nat.pow_eq,
      Word.add_of_lt (start_add_lt_limit pos word), rest]

/-- The boundary nodes are counted. -/
theorem functionCount_eq (pos : 0 < functionDepth) (depth : treeDepth ≤ 63) :
    functionCount treeDepth functionDepth =
      .ok (regular treeDepth functionDepth).nodes.length := by
  have counted := countFrom_eq pos (levelCount treeDepth functionDepth) 0 fun i hi => by
    have := (lt_levelCount_iff pos).1 ((Nat.zero_add _).subst hi)
    omega
  rw [Nat.mul_zero, Nat.zero_add, start] at counted
  rw [functionCount, if_neg (Nat.ne_of_gt pos), counted, length_nodes]

/-- The slot of a boundary node is its position. -/
theorem getElem?_nodes (pos : 0 < functionDepth) {index position : Nat}
    (level : levelOf index = functionDepth * position) (inner : levelOf index < treeDepth) :
    (regular treeDepth functionDepth).nodes[start functionDepth position +
      (index - treeNodes (functionDepth * position))]? = some index := by
  obtain ⟨low, high⟩ := levelOf_eq_iff.1 level
  have first := treeNodes_add_one (functionDepth * position)
  rw [Nat.pow_succ] at high
  have inside := (lt_levelCount_iff pos).2 (level ▸ inner)
  rw [nodes_eq]
  generalize levelCount treeDepth functionDepth = count at inside
  induction count with
  | zero => omega
  | succ count ih =>
    rw [List.range_succ, List.flatMap_append, List.flatMap_singleton]
    obtain earlier | rfl := Nat.lt_succ_iff_lt_or_eq.1 inside
    · have found := ih earlier
      rwa [List.getElem?_append_left (List.getElem?_eq_some_iff.1 found).1]
    · rw [List.getElem?_append_right (by rw [length_flatMap_range]; omega), length_flatMap_range,
        Nat.add_sub_cancel_left, List.getElem?_range' (by omega)]
      congr 1
      omega

end Arbor.Layout
