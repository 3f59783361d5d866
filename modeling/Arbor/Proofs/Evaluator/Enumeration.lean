import Arbor.Proofs.Evaluator.Coverage

/-!
# The order of paths

Paths are listed for whatever bits the nodes of a subtree are given, as long as every node has one.
Their exits are the nodes at the bottom from the last one to the first. If no two nodes share a bit,
a path has one outcome for each node above its exit: the one that leads there.

## Main definitions

* `LeafPath.Records`: the outcomes of a path are those on the way to its exit.

## Main statements

* `exists_pathsFrom`, `pathsFrom_of_missing`: paths are listed exactly if no node lacks a bit.
* `records_of_pathsFrom`: what the paths require.
* `paths_exact`: all paths through a subtree, in their order.
-/

namespace Arbor

namespace Index

/-- A subtree consists of its root and of the subtrees of the children. -/
theorem within_succ {root levels i : Nat} : Within root (levels + 1) i ↔
    i = root ∨ ∃ outcome, Within (child outcome root) levels i := by
  have top : Within root 1 i ↔ i = root := by
    rw [← mem_map_subtreeNode]
    simp [eq_comm]
  rw [within_iff_of_le (show 1 ≤ levels + 1 by omega), top, Nat.add_sub_cancel]
  simp [bottom_succ, child]

end Index

namespace Evaluator

open Index PathBits

/-! ## Requiring an outcome for one more bit -/

theorem perm_insert {bit : Nat} {value : Bool} {bits : PathBits}
    (fresh : ∀ entry ∈ bits, entry.1 ≠ bit) :
    (PathBits.insert bit value bits).Perm ((bit, value) :: bits) := by
  induction bits with
  | nil => rfl
  | cons entry rest ih =>
    obtain ⟨differs, fresh⟩ := List.forall_mem_cons.1 fresh
    rw [PathBits.insert]
    split
    · rfl
    · rw [if_neg (Ne.symm differs)]
      exact ((ih fresh).cons entry).trans (.swap ..)

theorem sorted_insert {bit : Nat} {value : Bool} {bits : PathBits} (sorted : Sorted bits)
    (fresh : ∀ entry ∈ bits, entry.1 ≠ bit) : Sorted (PathBits.insert bit value bits) := by
  induction bits with
  | nil => exact List.pairwise_singleton _ _
  | cons entry rest ih =>
    obtain ⟨differs, fresh⟩ := List.forall_mem_cons.1 fresh
    obtain ⟨above, rest_sorted⟩ := List.pairwise_cons.1 sorted
    rw [PathBits.insert]
    split
    · next less =>
      refine List.pairwise_cons.2 ⟨?_, sorted⟩
      grind
    · next not_less =>
      rw [if_neg (Ne.symm differs)]
      refine List.pairwise_cons.2 ⟨fun other member => ?_, ih rest_sorted fresh⟩
      grind [(perm_insert fresh).mem_iff]

/-! ## Outcomes on the way to an exit -/

/-- The path requires one outcome for each node of the subtree that is above its exit: that it goes
on with the true child exactly if the way to the exit does. -/
structure LeafPath.Records (offsets : Offsets) (root levels : Nat) (path : LeafPath) : Prop where
  sorted : Sorted path.bits
  length_eq : path.bits.length = levels
  mem_bits : ∀ bit value, (bit, value) ∈ path.bits ↔
    ∃ level, (levelOf root ≤ level ∧ level < levelOf root + levels) ∧
      offsets (ancestor level path.leaf) = some bit ∧
      (value = true ↔ ancestor (level + 1) path.leaf = trueChild (ancestor level path.leaf))

section

variable {offsets : Offsets} {root levels : Nat}

/-- The outcome that leads to a child is one more on the way to the exits below the child. -/
theorem LeafPath.Records.stamp {outcome : Bool} {bit : Nat} {path : LeafPath}
    (records : path.Records offsets (child outcome root) levels)
    (exit : path.leaf ∈ bottom levels (child outcome root)) (has : offsets root = some bit)
    (apart : ∀ i, Within (child outcome root) levels i → offsets i ≠ some bit) :
    (path.stamp bit outcome).Records offsets root (levels + 1) := by
  obtain ⟨depth, through⟩ := mem_bottom.1 exit
  rw [levelOf_child] at depth through
  have above : ancestor (levelOf root) path.leaf = root := by
    rw [← ancestor_ancestor (Nat.le_succ _) (by omega), through,
      ancestor_child (Nat.le_refl _), ancestor_levelOf]
  have fresh : ∀ entry ∈ path.bits, entry.1 ≠ bit := by
    rintro ⟨other, value⟩ member rfl
    obtain ⟨level, ⟨low, high⟩, found, -⟩ := (records.mem_bits other value).1 member
    rw [levelOf_child] at low high
    have level_eq := levelOf_ancestor (show level ≤ levelOf path.leaf by omega)
    refine apart _ ⟨?_, ?_, ?_⟩ found
    · rwa [levelOf_child, level_eq]
    · rwa [levelOf_child, level_eq]
    · rw [levelOf_child, ancestor_ancestor low (by omega), through]
  have bits : (path.stamp bit outcome).bits.Perm ((bit, outcome) :: path.bits) := perm_insert fresh
  refine ⟨sorted_insert records.sorted fresh, ?_, fun other value => ?_⟩
  · rw [bits.length_eq, List.length_cons, records.length_eq]
  · have here : (offsets (ancestor (levelOf root) path.leaf) = some other ∧ (value = true ↔
        ancestor (levelOf root + 1) path.leaf = trueChild (ancestor (levelOf root) path.leaf))) ↔
        (other, value) = (bit, outcome) := by
      rw [above, through, has, child_eq_trueChild, ← Bool.eq_iff_iff, Option.some.injEq,
        Prod.mk.injEq, @eq_comm _ bit]
    rw [bits.mem_iff, List.mem_cons, records.mem_bits, levelOf_child, ← here]
    constructor
    · rintro (found | ⟨level, inside, found⟩)
      · exact ⟨levelOf root, by omega, found⟩
      · exact ⟨level, by omega, found⟩
    · rintro ⟨level, ⟨low, high⟩, found⟩
      rcases low.eq_or_lt with rfl | below
      · exact .inl found
      · exact .inr ⟨level, by omega, found⟩

/-- If no two nodes share a bit, paths require what leads to their exits. By induction on the
levels: the outcome of the root is one more than those below it. -/
theorem records_of_pathsFrom {paths : List LeafPath}
    (read : pathsFrom offsets levels root = .ok paths)
    (apart : Set.InjOn offsets {i | Within root levels i}) :
    ∀ path ∈ paths, path.Records offsets root levels := by
  induction levels generalizing root paths with
  | zero =>
    obtain rfl := Except.ok.inj read
    intro path member
    obtain rfl := List.mem_singleton.1 member
    refine ⟨.nil, rfl, fun bit value => ⟨by simp, ?_⟩⟩
    rintro ⟨level, inside, -⟩
    omega
  | succ levels ih =>
    obtain ⟨bit, onTrue, onFalse, has, first, second, rfl⟩ := pathsFrom_succ_eq_ok.1 read
    have stamped (outcome : Bool) {below : List LeafPath}
        (listed : pathsFrom offsets levels (child outcome root) = .ok below) :
        ∀ path ∈ below.map (LeafPath.stamp bit outcome),
          path.Records offsets root (levels + 1) := by
      intro path member
      obtain ⟨shorter, among, rfl⟩ := List.mem_map.1 member
      have inner {i : Nat} (within : Within (child outcome root) levels i) :
          Within root (levels + 1) i := within_succ.2 (.inr ⟨outcome, within⟩)
      have exit : shorter.leaf ∈ bottom levels (child outcome root) := by
        rw [← List.mem_reverse, ← leaves_of_pathsFrom listed]
        exact List.mem_map_of_mem among
      refine (ih listed (apart.mono fun _ => inner) shorter among).stamp exit has ?_
      -- the root has its bit for itself
      intro i within same
      obtain rfl := apart (inner within) (within_succ.2 (.inl rfl)) (same.trans has.symm)
      have := within.le_level
      rw [levelOf_child] at this
      omega
    intro path member
    exact (List.mem_append.1 member).elim (stamped true first path) (stamped false second path)

/-! ## Nodes without a bit -/

theorem exists_pathsFrom (complete : ∀ i, Within root levels i → offsets i ≠ none) :
    ∃ paths, pathsFrom offsets levels root = .ok paths := by
  induction levels generalizing root with
  | zero => exact ⟨_, rfl⟩
  | succ levels ih =>
    obtain ⟨bit, has⟩ := Option.ne_none_iff_exists'.1 (complete root (within_succ.2 (.inl rfl)))
    have below (outcome : Bool) :
        ∃ paths, pathsFrom offsets levels (child outcome root) = .ok paths :=
      ih fun i within => complete i (within_succ.2 (.inr ⟨outcome, within⟩))
    obtain ⟨onTrue, first⟩ := below true
    obtain ⟨onFalse, second⟩ := below false
    exact ⟨_, pathsFrom_succ_eq_ok.2 ⟨bit, onTrue, onFalse, has, first, second, rfl⟩⟩

/-- A node without a bit is noticed, whatever comes before it. -/
theorem pathsFrom_of_missing (missing : ∃ i, Within root levels i ∧ offsets i = none) :
    pathsFrom offsets levels root = .error .missingKey := by
  induction levels generalizing root with
  | zero =>
    obtain ⟨i, ⟨low, high, -⟩, -⟩ := missing
    omega
  | succ levels ih =>
    obtain ⟨i, within, absent⟩ := missing
    rw [pathsFrom]
    cases has : offsets root with
    | none => rfl
    | some bit =>
      by_cases early : ∃ i, Within (trueChild root) levels i ∧ offsets i = none
      · simp [ih early]
      · obtain ⟨onTrue, first⟩ := @exists_pathsFrom offsets (trueChild root) levels
          fun i within absent => early ⟨i, within, absent⟩
        have late : Within (falseChild root) levels i := by
          obtain rfl | ⟨outcome, within⟩ := within_succ.1 within
          · simp [has] at absent
          · cases outcome with
            | false => exact within
            | true => exact absurd ⟨i, within, absent⟩ early
        simp [first, ih ⟨i, late, absent⟩]

end

/-! ## All paths -/

/-- The exit with a number, counted from the last one. -/
theorem getElem?_reverse_bottom {root levels k : Nat} (less : k < 2 ^ levels) :
    (bottom levels root).reverse[k]? =
      some ((root + 1) * 2 ^ levels - 1 + (2 ^ levels - 1 - k)) := by
  rw [List.getElem?_reverse (by simpa [bottom] using less), bottom, List.length_range',
    List.getElem?_range' (by omega), Nat.one_mul]

/-- Paths are listed if every node of a subtree has a bit, and a missing bit is a fault. Their exits
are the nodes at the bottom, from the last one down to the first. If no two nodes share a bit, each
path requires one outcome for each node above its exit. Paths that were listed before stay as they
are. -/
theorem paths_exact {root levels : Nat} (deep : levelOf root + levels ≤ 63) (offsets : Offsets) :
    ((∃ i, Within root levels i ∧ offsets i = none) →
      leafPaths root levels offsets = .error .missingKey) ∧
    ((∀ i, Within root levels i → offsets i ≠ none) → ∃ paths,
      leafPaths root levels offsets = .ok paths ∧ paths.length = 2 ^ levels ∧
      (∀ k < 2 ^ levels, ∃ path, paths[k]? = some path ∧
        path.leaf = (root + 1) * 2 ^ levels - 1 + (2 ^ levels - 1 - k)) ∧
      paths.Pairwise (fun path later => later.leaf < path.leaf) ∧
      (Set.InjOn offsets {i | Within root levels i} →
        ∀ path ∈ paths, path.Records offsets root levels)) ∧
    ∀ earlier, collectPaths offsets levels root earlier =
      (leafPaths root levels offsets).map (earlier ++ ·) := by
  have words : levelOf root + levels < 64 := Nat.lt_succ_of_le deep
  rw [leafPaths_eq_pathsFrom words]
  refine ⟨pathsFrom_of_missing, fun complete => ?_, collectPaths_eq words⟩
  obtain ⟨paths, read⟩ := exists_pathsFrom complete
  have leaves := leaves_of_pathsFrom read
  refine ⟨paths, read, length_of_pathsFrom read, fun k less => ?_, ?_, records_of_pathsFrom read⟩
  · have exit := @getElem?_reverse_bottom root levels k less
    rwa [← leaves, List.getElem?_map, Option.map_eq_some_iff] at exit
  · have falling : (paths.map (·.leaf)).Pairwise (· > ·) := by
      rw [leaves, List.pairwise_reverse]
      exact List.pairwise_lt_range'
    exact List.pairwise_map.1 falling

def scattered : List (Nat × Nat) := [(2, 7), (5, 63), (6, 0)]

/-- Below node 2, with a path that was listed before. Without the last of the three nodes there are
no paths. -/
theorem paths_exact_scattered : levelOf 2 + 2 ≤ 63 ∧
    leafPaths 2 2 (.ofEntries (scattered.take 2)) = .error .missingKey ∧
    ∃ paths, leafPaths 2 2 (.ofEntries scattered) = .ok paths ∧ paths.length = 4 ∧
      (∃ path, paths[1]? = some path ∧ path.leaf = 13 ∧
        path.Records (.ofEntries scattered) 2 2) ∧
      collectPaths (.ofEntries scattered) 2 2 [⟨5, [(7, false)]⟩] =
        .ok (⟨5, [(7, false)]⟩ :: paths) := by
  have deep : levelOf 2 + 2 ≤ 63 := by decide
  have within (i : Nat) : Within 2 2 i ↔ i ∈ [2, 5, 6] := mem_map_subtreeNode.symm
  have complete : ∀ i ∈ [2, 5, 6], Offsets.ofEntries scattered i ≠ none := by decide
  have apart : ∀ i ∈ [2, 5, 6], ∀ j ∈ [2, 5, 6],
      Offsets.ofEntries scattered i = Offsets.ofEntries scattered j → i = j := by decide
  obtain ⟨-, listed, appended⟩ := paths_exact deep (.ofEntries scattered)
  obtain ⟨paths, read, length, order, -, records⟩ :=
    listed fun i inside => complete i ((within i).1 inside)
  obtain ⟨path, found, exit⟩ := order 1 (by decide)
  refine ⟨deep, (paths_exact deep _).1 ⟨6, (within 6).2 (by decide), by decide⟩, paths, read,
    length, ⟨path, found, exit, records ?_ path (List.mem_of_getElem? found)⟩, ?_⟩
  · exact fun i first j second => apart i ((within i).1 first) j ((within j).1 second)
  · rw [appended, read]
    rfl

end Evaluator

end Arbor
