import Arbor.Proofs.Evaluator.Chain
import Mathlib.Algebra.BigOperators.Ring.List

/-!
# What emitted code consists of

Where `r` of `n` levels are left there are `2 ^ (n - r)` nodes to go on with, and the same strategy
is emitted at each of them. So the counts of a piece of code are sums over the chain of its
selector, and the predicates add up to one for every node, whatever the chain is.

## Main definitions

* `Strategy.stats`: the counts of one strategy at one node.
* `Stats.Additive`: a count that can be taken piece by piece.
* `Selector.sumSites`: a sum over the nodes at which a selector is asked.

## Main statements

* `Jump.cases_eq`: the labels of a jump are the variants of its paths.
* `Emits.stats_eq`: the counts of emitted code as sums over the chain.
* `Selector.sumSites_predicates`: how many predicates a chain takes.
* `Selector.switches_uniform`: how many switches of one depth it takes.
-/

namespace Arbor

/-- What is emitted for a strategy at one node, without the code that goes on from there. -/
def Strategy.stats : Strategy → Evaluator.Stats
  | .subtreeSwitch levels =>
    { switches := 1, cases := 2 ^ (2 ^ levels - 1), predicates := 2 ^ levels - 1 }
  | .ifThenElse => .ofBranch

theorem Strategy.predicates_stats (strategy : Strategy) :
    strategy.stats.predicates = 2 ^ strategy.levels - 1 := by
  cases strategy <;> rfl

namespace Selector

variable {selector : Selector} {remaining : Nat}

/-- The sum over all nodes at which a strategy is emitted for some of `remaining` levels. -/
def sumSites (selector : Selector) (weight : Strategy → Nat) (remaining : Nat) : Nat :=
  ((selector.stages remaining).map fun stage =>
    2 ^ (remaining - stage) * weight (selector stage)).sum

@[simp] theorem sumSites_zero (selector : Selector) (weight : Strategy → Nat) :
    selector.sumSites weight 0 = 0 := by
  simp [sumSites]

/-- Below the first strategy the chain is run through once for each node that it leads to. -/
theorem sumSites_of_fits (fits : selector.Fits remaining) (weight : Strategy → Nat) :
    selector.sumSites weight remaining = weight (selector remaining) +
      2 ^ (selector remaining).levels *
        selector.sumSites weight (remaining - (selector remaining).levels) := by
  have within := fits.2.1
  have later : ∀ stage ∈ selector.stages (remaining - (selector remaining).levels),
      2 ^ (remaining - stage) * weight (selector stage) =
        2 ^ (selector remaining).levels *
          (2 ^ (remaining - (selector remaining).levels - stage) * weight (selector stage)) := by
    intro stage member
    have below := le_of_mem_stages member
    rw [← Nat.mul_assoc, ← Nat.pow_add]
    congr 2
    omega
  rw [sumSites, stages_of_fits fits, List.map_cons, List.sum_cons, Nat.sub_self, Nat.pow_zero,
    Nat.one_mul, List.map_congr_left later, List.sum_map_mul_left, sumSites]

/-- Strategies without weight can be left out. -/
theorem sumSites_eq_filter (selector : Selector) {weight : Strategy → Nat} (keep : Strategy → Prop)
    [DecidablePred keep] (value : Strategy → Nat)
    (spec : ∀ strategy, weight strategy = if keep strategy then value strategy else 0)
    (remaining : Nat) :
    selector.sumSites weight remaining =
      (((selector.stages remaining).filter (keep <| selector ·)).map fun stage =>
        2 ^ (remaining - stage) * value (selector stage)).sum := by
  rw [sumSites]
  induction selector.stages remaining with
  | nil => rfl
  | cons stage later ih =>
    rw [List.map_cons, List.sum_cons, ih, spec]
    by_cases kept : keep (selector stage) <;> simp [kept]

theorem sumSites_switches (selector : Selector) (remaining : Nat) :
    selector.sumSites (·.stats.switches) remaining =
      (((selector.stages remaining).filter (selector · ≠ .ifThenElse)).map fun stage =>
        2 ^ (remaining - stage)).sum := by
  rw [selector.sumSites_eq_filter (· ≠ .ifThenElse) 1 (by rintro (_ | _) <;> rfl)]
  simp

theorem sumSites_branches (selector : Selector) (remaining : Nat) :
    selector.sumSites (·.stats.branches) remaining =
      (((selector.stages remaining).filter (selector · = .ifThenElse)).map fun stage =>
        2 ^ (remaining - stage)).sum := by
  rw [selector.sumSites_eq_filter (· = .ifThenElse) 1 (by rintro (_ | _) <;> rfl)]
  simp

theorem sumSites_cases (selector : Selector) (remaining : Nat) :
    selector.sumSites (·.stats.cases) remaining =
      (((selector.stages remaining).filter (selector · ≠ .ifThenElse)).map fun stage =>
        2 ^ (remaining - stage) * 2 ^ (2 ^ (selector stage).levels - 1)).sum :=
  selector.sumSites_eq_filter (· ≠ .ifThenElse) (fun strategy => 2 ^ (2 ^ strategy.levels - 1))
    (by rintro (_ | _) <;> rfl) remaining

/-- A chain that uses up its levels takes one predicate for each node of a subtree. -/
theorem sumSites_predicates (exhausts : selector.Exhausts remaining) :
    selector.sumSites (·.stats.predicates) remaining = 2 ^ remaining - 1 := by
  induction exhausts with
  | done => simp
  | @step remaining fits _ ih =>
    have parts : 2 ^ remaining = 2 ^ (selector remaining).levels *
        2 ^ (remaining - (selector remaining).levels) := by
      rw [← Nat.pow_add, Nat.add_sub_cancel' fits.2.1]
    have first := Nat.two_pow_pos (selector remaining).levels
    have whole : 2 ^ (selector remaining).levels ≤ 2 ^ remaining :=
      Nat.pow_le_pow_right Nat.two_pos fits.2.1
    rw [sumSites_of_fits fits, ih, Strategy.predicates_stats, Nat.mul_sub, ← parts]
    omega

/-- Switches of one depth all weigh the same. -/
theorem sumSites_uniform (switchDepth : Nat) (weight : Strategy → Nat) (remaining : Nat) :
    (uniform switchDepth).sumSites weight remaining =
      (uniform switchDepth).sumSites (·.stats.switches) remaining *
        weight (.subtreeSwitch switchDepth) := by
  rw [sumSites, sumSites, ← List.sum_map_mul_right]
  simp [uniform, Strategy.stats]

theorem switches_uniform {switchDepth : Nat} (pos : 0 < switchDepth)
    (exhausts : (uniform switchDepth).Exhausts remaining) :
    (uniform switchDepth).sumSites (·.stats.switches) remaining =
      (2 ^ remaining - 1) / (2 ^ switchDepth - 1) := by
  have several : 0 < 2 ^ switchDepth - 1 := by
    have := Nat.one_lt_two_pow pos.ne'
    omega
  rw [← sumSites_predicates exhausts, sumSites_uniform switchDepth (·.stats.predicates)]
  exact (Nat.mul_div_cancel _ several).symm

end Selector

namespace Evaluator

open Index

/-- The count is taken of each piece of code and added up. -/
structure Stats.Additive (measure : Stats → Nat) : Prop where
  zero : measure {} = 0
  add : ∀ a b, measure (a.add b) = measure a + measure b

theorem Stats.Additive.armStats_eq {measure : Stats → Nat} (additive : Stats.Additive measure)
    {arms : List Code} {value : Nat} (same : ∀ arm ∈ arms, measure arm.stats = value) :
    measure (Code.armStats arms) = arms.length * value := by
  induction arms with
  | nil => simpa [Code.armStats] using additive.zero
  | cons arm rest ih =>
    have later := ih fun other member => same other (by simp [member])
    rw [Code.armStats, additive.add, same arm (by simp), later, List.length_cons, Nat.succ_mul,
      Nat.add_comm]

/-- The labels of a switch are the entries of its table that have an arm. -/
theorem cases_ofSwitch (tests arms : Nat) (table : Array Nat) :
    (Stats.ofSwitch tests arms table).cases = table.toList.countP (· < arms) := by
  have counted : ∀ (entries : List Nat) (labels : Nat),
      entries.foldl (fun labels arm => if arm < arms then labels + 1 else labels) labels =
        labels + entries.countP (· < arms) := by
    intro entries
    induction entries with
    | nil => exact fun _ => rfl
    | cons entry rest ih => grind
  rw [Stats.ofSwitch, ← Array.foldl_toList, counted, Nat.zero_add]

/-! Labels are counted one path after the other while a table is filled. -/

theorem countP_of_label {unused arm : Nat} {vectors : List Nat} {table labelled : Array Nat}
    (made : label unused arm vectors table = .ok labelled) {isLabel : Nat → Bool}
    (free : isLabel unused = false) (new : isLabel arm = true) :
    labelled.toList.countP isLabel = table.toList.countP isLabel + vectors.length := by
  induction vectors generalizing table with
  | nil =>
    cases made
    rfl
  | cons vector rest ih =>
    simp only [label] at made
    split at made
    · cases made
    · next entry found =>
      split at made
      · next same =>
        obtain ⟨inside, here⟩ := Array.getElem?_eq_some_iff.1 found
        rw [ih made, Array.toList_setIfInBounds, List.countP_set inside, Array.getElem_toList, here,
          same]
        simp only [free, new, List.length_cons, if_true, Bool.false_eq_true, if_false]
        omega
      · cases made

theorem countP_of_fillTable {conditionBits unused arm : Nat} {paths : List LeafPath}
    {table filled : Array Nat}
    (made : fillTable conditionBits unused paths arm table = .ok filled) {isLabel : Nat → Bool}
    (free : isLabel unused = false) (new : ∀ i < paths.length, isLabel (arm + i) = true) :
    ∃ labels, paths.mapM (variants conditionBits ·.bits) = .ok labels ∧
      filled.toList.countP isLabel =
        table.toList.countP isLabel + (labels.map List.length).sum := by
  induction paths generalizing arm table with
  | nil =>
    cases made
    exact ⟨[], rfl, rfl⟩
  | cons path rest ih =>
    obtain ⟨vectors, read, made⟩ := bind_eq_ok.1 made
    obtain ⟨labelled, entered, made⟩ := bind_eq_ok.1 made
    obtain ⟨labels, others, count⟩ := ih made fun i less => by
      rw [Nat.add_right_comm, Nat.add_assoc]
      exact new (i + 1) (Nat.succ_lt_succ less)
    refine ⟨vectors :: labels, by simp [read, others], ?_⟩
    rw [count, countP_of_label entered free (new 0 (by simp)), List.map_cons, List.sum_cons,
      Nat.add_assoc]

theorem length_of_testsFrom {tree : Tree} {root count bit : Nat} {tests : List (Nat × Node)}
    (read : testsFrom tree root count bit = .ok tests) : tests.length = count := by
  induction count generalizing bit tests with
  | zero =>
    cases read
    rfl
  | succ count ih =>
    obtain ⟨_, -, read⟩ := bind_eq_ok.1 read
    obtain ⟨_, -, read⟩ := bind_eq_ok.1 read
    obtain ⟨later, rest, made⟩ := bind_eq_ok.1 read
    obtain rfl := Except.ok.inj made
    rw [List.length_cons, ih rest]

/-- The labels of a jump are the variants of its paths, one path after the other. -/
theorem Jump.cases_eq {tree : Tree} {root levels : Nat} {jump : Jump}
    (made : Jump.of tree root levels = .ok jump) :
    ∃ tests paths labels, testsFrom tree root jump.tests.length 0 = .ok tests ∧
      leafPaths root levels (.ofEntries (tests.zipIdx.map fun (test, bit) => (test.1, bit))) =
        .ok paths ∧
      jump.exits = paths.map (·.leaf) ∧
      paths.mapM (variants jump.tests.length ·.bits) = .ok labels ∧
      (Stats.ofSwitch jump.tests.length jump.exits.length jump.table).cases =
        (labels.map List.length).sum := by
  obtain ⟨nodes, -, made⟩ := bind_eq_ok.1 made
  obtain ⟨tests, read, made⟩ := bind_eq_ok.1 made
  obtain ⟨paths, found, made⟩ := bind_eq_ok.1 made
  obtain ⟨table, filled, made⟩ := bind_eq_ok.1 made
  obtain ⟨labels, expanded, count⟩ := @countP_of_fillTable _ _ _ _ _ _ filled
    (· < paths.length) (by simp) (by simp)
  obtain rfl := Except.ok.inj made
  have bits := length_of_testsFrom read
  refine ⟨tests, paths, labels, ?_, found, rfl, ?_, ?_⟩
  · rwa [List.length_map, bits]
  · rwa [List.length_map, bits]
  · rw [cases_ofSwitch, List.length_map, count]
    simp

/-- All entries of the table are labels. -/
theorem Jump.Covers.stats_eq {tree : Tree} {root levels arms : Nat} {jump : Jump}
    (covers : jump.Covers tree root levels) (enough : jump.exits.length = arms) :
    Stats.ofSwitch jump.tests.length arms jump.table = (Strategy.subtreeSwitch levels).stats := by
  have covered : ∀ arm ∈ jump.table.toList, arm < arms := by
    intro arm member
    obtain ⟨vector, found⟩ := List.mem_iff_getElem?.1 member
    rw [Array.getElem?_toList] at found
    have inside := covers.size_table ▸ (Array.getElem?_eq_some_iff.1 found).1
    obtain ⟨other, labelled, exit⟩ := covers.arm_eq vector inside
    obtain rfl := Option.some.inj (found.symm.trans labelled)
    exact enough ▸ (List.getElem?_eq_some_iff.1 exit).1
  have labels : (Stats.ofSwitch jump.tests.length arms jump.table).cases =
      2 ^ (2 ^ levels - 1) := by
    rw [cases_ofSwitch, List.countP_eq_length.2 (by simpa using covered), Array.length_toList,
      covers.size_table]
  rw [Strategy.stats, ← labels, ← covers.length_tests]
  rfl

/-- The counts of emitted code, by induction on the levels that are left. -/
theorem Emits.measure_eq {measure : Stats → Nat} (additive : Stats.Additive measure) {tree : Tree}
    {selector : Selector} {symbol : String} {remaining root : Nat} {code : Code}
    (h : Emits tree selector symbol remaining root code)
    (deep : levelOf root + remaining ≤ tree.depth) :
    measure code.stats = selector.sumSites (fun strategy => measure strategy.stats) remaining := by
  refine h.induction (motive := fun remaining _ code => measure code.stats =
    selector.sumSites (fun strategy => measure strategy.stats) remaining) ?_ ?_ ?_ deep
  · intro node _
    simpa [Code.stats] using additive.zero
  · intro remaining root levels jump arms picked narrow deep covers harms
    have fits := Selector.fits_of_switch picked narrow
    have exits : jump.exits.length = 2 ^ levels := by simp [covers.exits_eq, bottom]
    have length := harms.length_eq
    have below := additive.armStats_eq fun arm member => by
      obtain ⟨_, -, same⟩ := forall₂_exists harms member
      exact same
    rw [Code.stats, additive.add, covers.stats_eq length, below, ← length, exits,
      Selector.sumSites_of_fits fits, picked, Strategy.levels, Nat.add_sub_cancel_left]
  · intro remaining root test onTrue onFalse picked deep htest htrue hfalse
    have fits := Selector.fits_of_branch picked
    rw [Code.stats, additive.add, additive.add, htrue, hfalse, Selector.sumSites_of_fits fits,
      picked, Strategy.levels, Nat.add_sub_cancel, Strategy.stats, Nat.pow_one, Nat.two_mul,
      Nat.add_assoc]

/-- All counts of emitted code as sums over the chain. -/
theorem Emits.stats_eq {tree : Tree} {selector : Selector} {symbol : String} {remaining root : Nat}
    {code : Code} (h : Emits tree selector symbol remaining root code)
    (deep : levelOf root + remaining ≤ tree.depth) :
    code.stats =
      { switches := selector.sumSites (·.stats.switches) remaining
        cases := selector.sumSites (·.stats.cases) remaining
        branches := selector.sumSites (·.stats.branches) remaining
        predicates := selector.sumSites (·.stats.predicates) remaining } := by
  have counted {measure : Stats → Nat} (additive : Stats.Additive measure) :=
    h.measure_eq additive deep
  calc code.stats = ⟨code.stats.switches, code.stats.cases, code.stats.branches,
      code.stats.predicates⟩ := rfl
    _ = _ := by
      congr 1 <;> exact counted ⟨rfl, fun _ _ => rfl⟩

end Evaluator

end Arbor
