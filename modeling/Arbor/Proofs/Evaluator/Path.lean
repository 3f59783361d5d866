import Arbor.Evaluator.Path
import Arbor.Proofs.Evaluator.Variant
import Arbor.Proofs.Numbering

/-!
# The paths through a subtree

Every vector of outcomes selects one path: the one whose exit is reached by descending with the bits
of the vector.

## Main definitions

* `pathsFrom`: the paths of a subtree, put together from those of the subtrees below its root.
* `Offsets.Numbers`: the offsets of a subtree.
* `LeafPath.Leads`: a path requires what a vector needs to reach its exit.

## Main statements

* `leaves_of_pathsFrom`: the exits are the nodes at the bottom, from right to left.
* `collectPaths_eq`: collecting paths appends them to those that are there.
* `pathsFrom_eq`: the paths below a position of a subtree. Each exit is led to by its path, and
  every vector agrees with one of them.
-/

namespace Arbor.Index

/-- Inside a subtree one descends by positions. -/
theorem descend_subtreeNode (outcome : Nat → Bool) (root levels bit : Nat) :
    descend outcome levels (subtreeNode root bit) =
      subtreeNode root (descend (fun b => outcome (subtreeNode root b)) levels bit) := by
  induction levels generalizing bit with
  | zero => rfl
  | succ levels ih => rw [descend_succ, descend_succ, ← subtreeNode_child, ih]

/-- The nodes `levels` levels below a node, from left to right. -/
def bottom (levels node : Nat) : List Nat :=
  List.range' ((node + 1) * 2 ^ levels - 1) (2 ^ levels)

@[simp] theorem bottom_zero (node : Nat) : bottom 0 node = [node] := by simp [bottom]

theorem bottom_succ (levels node : Nat) :
    bottom (levels + 1) node =
      bottom levels (falseChild node) ++ bottom levels (trueChild node) := by
  have left : (falseChild node + 1) * 2 ^ levels = (node + 1) * 2 ^ (levels + 1) := by
    rw [falseChild, Nat.pow_succ]
    ring
  have right : (trueChild node + 1) * 2 ^ levels = (node + 1) * 2 ^ (levels + 1) + 2 ^ levels := by
    rw [trueChild, Nat.pow_succ]
    ring
  have : 0 < (node + 1) * 2 ^ (levels + 1) := Nat.mul_pos (Nat.succ_pos _) (Nat.two_pow_pos _)
  have start : (node + 1) * 2 ^ (levels + 1) + 2 ^ levels - 1 =
      (node + 1) * 2 ^ (levels + 1) - 1 + 2 ^ levels := Nat.sub_add_comm this
  rw [bottom, bottom, bottom, left, right, start, List.range'_append_1]
  congr 1
  ring

theorem nodup_bottom (levels node : Nat) : (bottom levels node).Nodup := List.nodup_range'

end Arbor.Index

namespace Arbor.Evaluator

open Index PathBits

def pathsFrom (offsets : Offsets) : (levels node : Nat) → Except Fault (List LeafPath)
  | 0, node => .ok [⟨node, []⟩]
  | levels + 1, node => do
    match offsets node with
    | none => throw .missingKey
    | some bit =>
      let onTrue ← pathsFrom offsets levels (trueChild node)
      let onFalse ← pathsFrom offsets levels (falseChild node)
      return onTrue.map (.stamp bit true) ++ onFalse.map (.stamp bit false)

theorem pathsFrom_succ_eq_ok {offsets : Offsets} {levels node : Nat} {paths : List LeafPath} :
    pathsFrom offsets (levels + 1) node = .ok paths ↔ ∃ bit onTrue onFalse,
      offsets node = some bit ∧ pathsFrom offsets levels (trueChild node) = .ok onTrue ∧
      pathsFrom offsets levels (falseChild node) = .ok onFalse ∧
      paths = onTrue.map (.stamp bit true) ++ onFalse.map (.stamp bit false) := by
  rw [pathsFrom]
  cases offsets node with
  | none => simp
  | some bit => simp [bind_eq_ok, @eq_comm _ paths]

/-- The exits of a subtree are the nodes at its bottom, whatever bits its nodes have. -/
theorem leaves_of_pathsFrom {offsets : Offsets} {levels node : Nat} {paths : List LeafPath}
    (h : pathsFrom offsets levels node = .ok paths) :
    paths.map (·.leaf) = (bottom levels node).reverse := by
  induction levels generalizing node paths with
  | zero =>
    obtain rfl := Except.ok.inj h
    simp
  | succ levels ih =>
    obtain ⟨bit, onTrue, onFalse, -, first, second, rfl⟩ := pathsFrom_succ_eq_ok.1 h
    rw [List.map_append, List.map_map, List.map_map, bottom_succ, List.reverse_append]
    exact congrArg₂ (· ++ ·) (ih first) (ih second)

theorem length_of_pathsFrom {offsets : Offsets} {levels node : Nat} {paths : List LeafPath}
    (h : pathsFrom offsets levels node = .ok paths) : paths.length = 2 ^ levels := by
  simpa [bottom] using congrArg List.length (leaves_of_pathsFrom h)

/-- Only the last paths are stamped. -/
theorem stampLast_append {earlier paths : List LeafPath} {count : Nat}
    (length : paths.length = count) (bit : Nat) (value : Bool) :
    stampLast count bit value (earlier ++ paths) =
      .ok (earlier ++ paths.map (.stamp bit value)) := by
  subst length
  simp [stampLast, Word.sub_of_le]

/-- Paths are appended to those that are there, which stay as they are. By induction on the levels:
the paths below a child are the last ones when they are stamped. -/
theorem collectPaths_eq {offsets : Offsets} {levels node : Nat} (words : levelOf node + levels < 64)
    (earlier : List LeafPath) : collectPaths offsets levels node earlier =
      (pathsFrom offsets levels node).map (earlier ++ ·) := by
  induction levels generalizing node earlier with
  | zero => rfl
  | succ levels ih =>
    have inner : levelOf node + 1 < 64 := by omega
    have onTrue := @ih (trueChild node) (by rw [levelOf_trueChild]; omega)
    have onFalse := @ih (falseChild node) (by rw [levelOf_falseChild]; omega)
    rw [collectPaths, pathsFrom]
    cases offsets node with
    | none => rfl
    | some bit =>
      simp only [Bounded.nodesOnLevel_eq (show levels < 64 by omega), Bounded.trueChild_eq inner,
        Bounded.falseChild_eq inner, ok_bind, onTrue]
      cases first : pathsFrom offsets levels (trueChild node) with
      | error fault => rfl
      | ok upper =>
        have upperLength : upper.length = nodesOnLevel levels := length_of_pathsFrom first
        simp only [Except.map, ok_bind, stampLast_append upperLength, onFalse]
        cases second : pathsFrom offsets levels (falseChild node) with
        | error fault => rfl
        | ok lower =>
          have lowerLength : lower.length = nodesOnLevel levels := length_of_pathsFrom second
          simp only [ok_bind, stampLast_append lowerLength, pure_eq_ok]
          rw [List.append_assoc]

def Offsets.Numbers (offsets : Offsets) (root levels : Nat) : Prop :=
  ∀ bit, levelOf bit < levels → offsets (subtreeNode root bit) = some bit

/-- A path that starts at position `bit` of the subtree of `root` and leaves its `levels` levels
after `left` steps. -/
structure LeafPath.Leads (root levels left bit : Nat) (path : LeafPath) : Prop where
  length_eq : path.bits.length = left
  sorted : Sorted path.bits
  above : ∀ entry ∈ path.bits, bit ≤ entry.1
  inside : ∀ entry ∈ path.bits, levelOf entry.1 < levels
  leaf_eq : ∀ vector : Nat, Agrees vector path.bits →
    path.leaf = subtreeNode root (descend vector.testBit left bit)

theorem LeafPath.Leads.lt_of_mem {root levels left bit : Nat} {outcome : Bool} {path : LeafPath}
    (h : path.Leads root levels left (child outcome bit)) : ∀ entry ∈ path.bits, bit < entry.1 :=
  fun entry he => (lt_child outcome bit).trans_le (h.above entry he)

theorem LeafPath.Leads.stamp_bits {root levels left bit : Nat} {outcome : Bool} {path : LeafPath}
    (h : path.Leads root levels left (child outcome bit)) (value : Bool) :
    (path.stamp bit value).bits = (bit, value) :: path.bits := insert_of_lt h.lt_of_mem

/-- A path from a child becomes a path from its parent by requiring the outcome in between. -/
theorem LeafPath.Leads.stamp {root levels left bit : Nat} {outcome : Bool} {path : LeafPath}
    (h : path.Leads root levels left (child outcome bit)) (level : levelOf bit < levels) :
    (path.stamp bit outcome).Leads root levels (left + 1) bit := by
  have bits := h.stamp_bits outcome
  refine ⟨?_, ?_, ?_, ?_, ?_⟩
  · rw [bits, List.length_cons, h.length_eq]
  · rw [bits]
    exact List.pairwise_cons.2 ⟨h.lt_of_mem, h.sorted⟩
  · rw [bits]
    rintro entry (_ | ⟨_, he⟩)
    · exact Nat.le_refl bit
    · exact (h.lt_of_mem entry he).le
  · rw [bits]
    rintro entry (_ | ⟨_, he⟩)
    · exact level
    · exact h.inside entry he
  · intro vector agrees
    rw [bits, agrees_cons] at agrees
    rw [descend_succ, agrees.1]
    exact h.leaf_eq vector agrees.2

/-- The paths from a position of a subtree, by induction on the levels that are left. -/
theorem pathsFrom_eq {offsets : Offsets} {root levels : Nat} (numbers : offsets.Numbers root levels)
    (left bit : Nat) (level : levelOf bit + left = levels) :
    ∃ paths, pathsFrom offsets left (subtreeNode root bit) = .ok paths ∧
      (∀ path ∈ paths, path.Leads root levels left bit) ∧
      ∀ vector, ∃ path ∈ paths, Agrees vector path.bits := by
  induction left generalizing bit with
  | zero =>
    refine ⟨[⟨subtreeNode root bit, []⟩], rfl, ?_, fun _ => ⟨_, List.mem_singleton_self _,
      agrees_nil _⟩⟩
    intro path hp
    obtain rfl := List.mem_singleton.1 hp
    exact ⟨rfl, List.Pairwise.nil, by simp, by simp, fun _ _ => rfl⟩
  | succ left ih =>
    have inner : levelOf bit < levels := by omega
    obtain ⟨onTrue, readTrue, leadTrue, agreeTrue⟩ :=
      ih (child true bit) (by rw [levelOf_child]; omega)
    obtain ⟨onFalse, readFalse, leadFalse, agreeFalse⟩ :=
      ih (child false bit) (by rw [levelOf_child]; omega)
    rw [subtreeNode_child] at readTrue readFalse
    refine ⟨onTrue.map (.stamp bit true) ++ onFalse.map (.stamp bit false), ?_, ?_, ?_⟩
    · exact pathsFrom_succ_eq_ok.2
        ⟨bit, onTrue, onFalse, numbers bit inner, readTrue, readFalse, rfl⟩
    · intro path hp
      obtain ht | hf := List.mem_append.1 hp
      · obtain ⟨shorter, hs, rfl⟩ := List.mem_map.1 ht
        exact (leadTrue shorter hs).stamp inner
      · obtain ⟨shorter, hs, rfl⟩ := List.mem_map.1 hf
        exact (leadFalse shorter hs).stamp inner
    · intro vector
      cases outcome : vector.testBit bit
      · obtain ⟨path, hp, agrees⟩ := agreeFalse vector
        refine ⟨path.stamp bit false, by simp [List.mem_map_of_mem hp], ?_⟩
        rw [(leadFalse path hp).stamp_bits, agrees_cons]
        exact ⟨outcome, agrees⟩
      · obtain ⟨path, hp, agrees⟩ := agreeTrue vector
        refine ⟨path.stamp bit true, by simp [List.mem_map_of_mem hp], ?_⟩
        rw [(leadTrue path hp).stamp_bits, agrees_cons]
        exact ⟨outcome, agrees⟩

/-- The paths through a whole subtree are those that its root has. -/
theorem leafPaths_eq_pathsFrom {offsets : Offsets} {root levels : Nat}
    (words : levelOf root + levels < 64) :
    leafPaths root levels offsets = pathsFrom offsets levels root := by
  rw [leafPaths, Bounded.nodesOnLevel_eq (by omega), ok_bind, collectPaths_eq words]
  cases pathsFrom offsets levels root <;> rfl

/-- The paths through a whole subtree. -/
theorem leafPaths_eq {offsets : Offsets} {root levels : Nat} (numbers : offsets.Numbers root levels)
    (words : levelOf root + levels < 64) :
    ∃ paths, leafPaths root levels offsets = .ok paths ∧
      paths.map (·.leaf) = (bottom levels root).reverse ∧
      (∀ path ∈ paths, path.Leads root levels levels 0) ∧
      ∀ vector, ∃ path ∈ paths, Agrees vector path.bits := by
  obtain ⟨paths, read, rest⟩ := pathsFrom_eq numbers levels 0 (by simp)
  rw [subtreeNode_zero] at read
  exact ⟨paths, (leafPaths_eq_pathsFrom words).trans read, leaves_of_pathsFrom read, rest⟩

/-- A vector agrees with the path at one position only, since paths with one exit are one path. -/
theorem exists_position {root levels : Nat} {paths : List LeafPath}
    (leaves : paths.map (·.leaf) = (bottom levels root).reverse)
    (leads : ∀ path ∈ paths, path.Leads root levels levels 0)
    (agreeing : ∀ vector, ∃ path ∈ paths, Agrees vector path.bits) (vector : Nat) :
    ∃ (i : Nat) (path : LeafPath), paths[i]? = some path ∧ Agrees vector path.bits ∧
      ∀ (j : Nat) (other : LeafPath), paths[j]? = some other → Agrees vector other.bits →
        j = i := by
  obtain ⟨path, member, agrees⟩ := agreeing vector
  obtain ⟨i, found⟩ := List.mem_iff_getElem?.1 member
  refine ⟨i, path, found, agrees, ?_⟩
  intro j other foundOther again
  have distinct : (paths.map (·.leaf)).Nodup := by
    rw [leaves]
    exact List.nodup_reverse.2 (nodup_bottom levels root)
  have exit := (leads path member).leaf_eq vector agrees
  have otherExit := (leads other (List.mem_of_getElem? foundOther)).leaf_eq vector again
  have inside : j < (paths.map (·.leaf)).length := by
    simpa using (List.getElem?_eq_some_iff.1 foundOther).1
  apply (List.getElem?_inj inside distinct).1
  simp [found, foundOther, exit, otherExit]

end Arbor.Evaluator
