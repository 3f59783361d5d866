import Arbor.Proofs.Build.Accepted
import Arbor.Proofs.Evaluator.Coverage
import Arbor.Proofs.Evaluator.Tally

/-!
# What a build emits

All evaluators of a tree consist of the same numbers of switches, branches and predicates, which
follow from the chain of the selector. Together they test every node above the leaves once.

## Main statements

* `Evaluator.emitted_of_compose`, `Evaluator.stats_of_compose`: what composed evaluators are and
  what they consist of.
* `Request.fresh_of_run`: the report of a build that composes its evaluators.
* `compose_inventory`: the counts of the evaluators and of the report, and the nodes they test.
-/

namespace Arbor

open Index Evaluator

namespace Evaluator

variable {tree : Tree} {selector : Selector} {geometry : Geometry} {functions : List Composed}
  {treeDepth functionDepth switchDepth : Nat}

/-- Evaluators are composed for the boundary nodes, inside the tree, by a selector that uses up the
levels of a function. -/
theorem emitted_of_compose
    (valid : Geometry.of treeDepth functionDepth switchDepth = .ok geometry)
    (composed : compose tree geometry selector = .ok functions) :
    selector.Exhausts functionDepth ∧
    functions.map (·.root) = (Layout.regular treeDepth functionDepth).nodes ∧
    ∀ function ∈ functions,
      Emits tree selector function.symbol functionDepth function.root function.code ∧
      levelOf function.root + functionDepth ≤ tree.depth := by
  obtain ⟨rfl, ⟨grown, shallow⟩, pos, -, chunks, -⟩ := Geometry.of_eq_ok.1 valid
  have word : treeDepth ≤ 63 := shallow.trans (by decide)
  have each : List.Forall₂ (fun root function => root = function.root ∧
      emit tree selector function.symbol functionDepth root = .ok function.code)
      (Layout.regular treeDepth functionDepth).nodes functions := by
    refine ((compose_eq_ok pos word).1 composed).imp ?_
    intro root function made
    obtain ⟨rfl, named, emitted⟩ := composeFunction_eq_ok.1 made
    exact ⟨rfl, named ▸ emitted⟩
  have roots : functions.map (·.root) = (Layout.regular treeDepth functionDepth).nodes := by
    symm
    rw [← List.forall₂_eq_eq_eq, List.forall₂_map_right_iff]
    exact each.imp fun _ _ h => h.1
  have inside : ∀ function ∈ functions,
      emit tree selector function.symbol functionDepth function.root = .ok function.code ∧
      levelOf function.root + functionDepth ≤ tree.depth := by
    intro function member
    obtain ⟨_, boundary, rfl, emitted⟩ := forall₂_exists each member
    have level := Layout.level_add_le pos chunks boundary
    exact ⟨emitted, emit_deep emitted (by omega)⟩
  refine ⟨?_, roots, fun function member => ?_⟩
  · obtain ⟨others, first⟩ := Layout.exists_nodes_eq_cons grown pos
    obtain ⟨function, rest, rfl, -, -⟩ := List.map_eq_cons_iff.1 (roots.trans first)
    obtain ⟨emitted, deep⟩ := inside function (by simp)
    exact exhausts_of_emit emitted deep
  · obtain ⟨emitted, deep⟩ := inside function member
    exact ⟨.of_emit emitted, deep⟩

theorem functionCount_of_compose
    (valid : Geometry.of treeDepth functionDepth switchDepth = .ok geometry)
    (composed : compose tree geometry selector = .ok functions) :
    Layout.functionCount treeDepth functionDepth = .ok functions.length := by
  obtain ⟨-, roots, -⟩ := emitted_of_compose valid composed
  obtain ⟨rfl, ⟨-, shallow⟩, pos, -⟩ := Geometry.of_eq_ok.1 valid
  rw [Layout.functionCount_eq pos (shallow.trans (by decide)), ← roots, List.length_map]

/-- All evaluators of a tree have the same counts. -/
theorem stats_of_compose
    (valid : Geometry.of treeDepth functionDepth switchDepth = .ok geometry)
    (composed : compose tree geometry selector = .ok functions) :
    ∀ function ∈ functions, function.code.stats =
      { switches := selector.sumSites (·.stats.switches) functionDepth
        cases := selector.sumSites (·.stats.cases) functionDepth
        branches := selector.sumSites (·.stats.branches) functionDepth
        predicates := selector.sumSites (·.stats.predicates) functionDepth } := by
  intro function member
  obtain ⟨-, -, emitted⟩ := emitted_of_compose valid composed
  obtain ⟨emits, deep⟩ := emitted function member
  exact emits.stats_eq deep

end Evaluator

namespace Build

/-- What a build reports that has not found its evaluators. -/
theorem Request.fresh_of_run {backend : Backend} {request : Request} {σ : Type}
    {partner : Partner (StateM σ)} {state after : σ} {resolver : Resolver}
    (built : ((request.build backend).run partner).run state = (.ok resolver, after))
    (missed : resolver.report.cacheHit = false) : ∃ functions duration,
      compose request.tree request.geometry request.chooser = .ok functions ∧
      resolver = request.resolver duration (fresh backend functions) := by
  have made := Dialogue.makes_run partner (request.build backend) state
  rw [show ((request.build backend).run partner state).1 = .ok resolver from
    congrArg Prod.fst built] at made
  obtain ⟨_, -, -, refused⟩ | ⟨checked, engine, duration, made, returned⟩ := table_of_makes made
  · cases refused
  obtain ⟨-, pos, -, -⟩ := check_eq_ok checked
  have plain : request.tabled backend engine =
      (request.compiled backend).map (fresh backend) := by
    cases cached : request.cached with
    | false => exact (engineFor_makes_plain pos cached made).2
    | true =>
      obtain ⟨_, _, found, -, -, same⟩ := engineFor_makes pos cached made
      rw [same] at returned ⊢
      obtain ⟨e, -, failed, -⟩ | ⟨engine, -, hit, -⟩ | ⟨composed, -⟩ :=
        outcome_cases request backend found
      · rw [failed] at returned
        cases returned
      · rw [hit] at returned
        cases collected : collect backend request.roots engine with
        | error failure =>
          rw [collected] at returned
          cases returned
        | ok table =>
          rw [collected] at returned
          obtain rfl := Except.ok.inj returned
          cases missed
      · exact composed
  rw [plain] at returned
  cases compiled : request.compiled backend with
  | error failure =>
    rw [compiled] at returned
    cases returned
  | ok functions =>
    rw [compiled] at returned
    exact ⟨functions, duration, compose_of_compiled pos compiled, Except.ok.inj returned⟩

/-- Without a cache, what can be composed is returned. -/
theorem Request.exists_fresh {backend : Backend} (accepts : backend.AcceptsEmitted)
    {request : Request} {functions : List Composed}
    (uncached : request.cached = false) (checked : request.check = .ok request.geometry)
    (composed : compose request.tree request.geometry request.chooser = .ok functions) {σ : Type}
    (partner : Partner (StateM σ)) (state : σ) : ∃ resolver after,
      ((request.build backend).run partner).run state = (.ok resolver, after) ∧
      resolver.report.cacheHit = false := by
  obtain ⟨duration, after, built⟩ := run_plain accepts uncached checked partner state
  rw [composed] at built
  exact ⟨_, after, built, rfl⟩

theorem casesOf_eq {functions : List Composed} {labels : Nat}
    (same : ∀ function ∈ functions, function.code.stats.cases = labels) :
    casesOf functions = functions.length * labels := by
  have labelled : functions.map (·.code.stats.cases) = List.replicate functions.length labels :=
    List.eq_replicate_iff.2 ⟨List.length_map _, by simpa using same⟩
  rw [casesOf, labelled]
  exact List.sum_replicate_nat

/-- Evaluators that are composed consist of what the chain of their selector takes, and together
they test each node above the leaves once. With switches of one depth this determines what a build
reports. -/
theorem compose_inventory {tree : Tree} {selector : Selector} {geometry : Geometry}
    {functions : List Composed} {treeDepth functionDepth switchDepth : Nat}
    (valid : Geometry.of treeDepth functionDepth switchDepth = .ok geometry)
    (composed : compose tree geometry selector = .ok functions) :
    ((selector.stages functionDepth ++ [0]).head? = some functionDepth ∧
      (selector.stages functionDepth ++ [0]).IsChain fun left next =>
        left = next + (selector left).levels ∧ next < left) ∧
    (∀ function ∈ functions,
      function.code.stats.predicates = 2 ^ functionDepth - 1 ∧
      function.code.stats.switches =
        (((selector.stages functionDepth).filter (selector · ≠ .ifThenElse)).map fun left =>
          2 ^ (functionDepth - left)).sum ∧
      function.code.stats.branches =
        (((selector.stages functionDepth).filter (selector · = .ifThenElse)).map fun left =>
          2 ^ (functionDepth - left)).sum ∧
      function.code.stats.cases =
        (((selector.stages functionDepth).filter (selector · ≠ .ifThenElse)).map fun left =>
          2 ^ (functionDepth - left) * 2 ^ (2 ^ (selector left).levels - 1)).sum) ∧
    ((∀ function ∈ functions, function.code.tests.map some =
        (selector.sites functionDepth function.root).map (tree.nodes[·]?)) ∧
      (functions.flatMap fun function => selector.sites functionDepth function.root).Perm
        (List.range (2 ^ treeDepth - 1))) ∧
    (selector = .uniform switchDepth →
      (∀ function ∈ functions, function.code.stats.switches =
        (2 ^ functionDepth - 1) / (2 ^ switchDepth - 1)) ∧
      ∀ (request : Request), request.tree = tree → request.geometry = geometry →
        request.chooser = selector → ∀ (backend : Backend) {σ : Type} (partner : Partner (StateM σ))
        state,
        (backend.AcceptsEmitted → request.cached = false →
          tree.requiredFeatures ≤ request.featureCount →
          ∃ resolver after, ((request.build backend).run partner).run state =
            (.ok resolver, after) ∧ resolver.report.cacheHit = false) ∧
        ∀ resolver after,
          ((request.build backend).run partner).run state = (.ok resolver, after) →
          resolver.report.cacheHit = false → ∃ count,
            Layout.functionCount treeDepth functionDepth = .ok count ∧
            resolver.report.emittedFunctions = count ∧
            resolver.report.totalCases =
              count * ((2 ^ functionDepth - 1) / (2 ^ switchDepth - 1)) *
                2 ^ (2 ^ switchDepth - 1)) := by
  obtain ⟨exhausts, roots, emitted⟩ := emitted_of_compose valid composed
  have counts := stats_of_compose valid composed
  have length := functionCount_of_compose valid composed
  obtain ⟨rfl, -, pos, ⟨wide, -⟩, chunks, -⟩ := Geometry.of_eq_ok.1 valid
  refine ⟨⟨Selector.head_stages exhausts, Selector.isChain_stages exhausts⟩, ?_, ⟨?_, ?_⟩, ?_⟩
  · intro function member
    rw [counts function member]
    exact ⟨Selector.sumSites_predicates exhausts, selector.sumSites_switches functionDepth,
      selector.sumSites_branches functionDepth, selector.sumSites_cases functionDepth⟩
  · intro function member
    obtain ⟨emits, deep⟩ := emitted function member
    exact emits.tests_eq deep
  · rw [← List.flatMap_map, roots]
    exact Layout.sites_perm pos chunks exhausts
  · rintro rfl
    have switches := Selector.switches_uniform wide exhausts
    have labels := Selector.sumSites_uniform switchDepth (·.stats.cases) functionDepth
    rw [switches] at labels
    refine ⟨fun function member => ?_, ?_⟩
    · rw [counts function member, switches]
    rintro request rfl same chosen backend σ partner state
    refine ⟨fun accepts uncached enough => ?_, fun resolver after built missed => ?_⟩
    · obtain ⟨rfl, rfl, rfl⟩ := Geometry.mk.inj same
      rw [← same] at valid composed
      rw [← chosen] at composed
      exact Request.exists_fresh accepts uncached (Request.check_eq valid enough) composed partner
        state
    obtain ⟨others, duration, again, rfl⟩ := Request.fresh_of_run built missed
    rw [same, chosen] at again
    obtain rfl := Except.ok.inj (composed.symm.trans again)
    refine ⟨functions.length, length, rfl, ?_⟩
    rw [Nat.mul_assoc]
    apply casesOf_eq
    intro function member
    rw [counts function member, labels, Strategy.stats]

def splitRequest : Request := { sampleRequest with functionDepth := 1, selector := none }

/-- A switch of two levels and the four branches below it are one function of seven predicates. -/
theorem compose_inventory_sample :
    (∃ functions, compose sampleTree sampleRequest.geometry sampleRequest.chooser = .ok functions ∧
      (∀ function ∈ functions, function.code.stats = ⟨1, 8, 4, 7⟩) ∧
      (functions.flatMap fun function => sampleRequest.chooser.sites 3 function.root).Perm
        (List.range 7)) ∧
    ∃ resolver after, ((splitRequest.build .standard).run idle).run 0 = (.ok resolver, after) ∧
      resolver.report.emittedFunctions = 7 ∧ resolver.report.totalCases = 14 := by
  constructor
  · have first : sampleRequest.chooser.Fits 3 := by decide
    have second : sampleRequest.chooser.Fits 1 := by decide
    have chain : sampleRequest.chooser.stages 3 = [3, 1] :=
      (Selector.stages_of_fits first).trans
        (congrArg _ ((Selector.stages_of_fits second).trans (congrArg _ (Selector.stages_zero _))))
    have exhausts : sampleRequest.chooser.Exhausts 3 := .step first (.step second .done)
    have valid : Geometry.of 3 3 1 = .ok sampleRequest.geometry := by decide
    obtain ⟨functions, composed⟩ := @compose_of_exhausts sampleTree _ sampleRequest.geometry
      (by decide) rfl (by decide) exhausts
    obtain ⟨-, counts, ⟨-, covered⟩, -⟩ := compose_inventory valid composed
    refine ⟨functions, composed, fun function member => ?_, covered⟩
    obtain ⟨predicates, switches, branches, cases⟩ := counts function member
    rw [chain] at switches branches cases
    calc function.code.stats = ⟨function.code.stats.switches, function.code.stats.cases,
        function.code.stats.branches, function.code.stats.predicates⟩ := rfl
      _ = ⟨1, 8, 4, 7⟩ := by rw [switches, cases, branches, predicates]; decide
  · have valid : Geometry.of 3 1 1 = .ok splitRequest.geometry := by decide
    obtain ⟨functions, composed⟩ := @compose_of_exhausts sampleTree _ splitRequest.geometry
      (by decide) rfl (by decide) (@Selector.uniform_exhausts 1 (by decide) (by decide) 1)
    obtain ⟨-, -, -, uniform⟩ := compose_inventory valid composed
    obtain ⟨returns, reports⟩ := (uniform rfl).2 splitRequest rfl rfl rfl .standard idle 0
    obtain ⟨resolver, after, built, missed⟩ :=
      returns Backend.acceptsEmitted_standard rfl (by decide)
    obtain ⟨count, counted, emitted, total⟩ := reports resolver after built missed
    obtain rfl : count = 7 := by
      have : Layout.functionCount 3 1 = .ok 7 := by decide
      exact Except.ok.inj (counted.symm.trans this)
    exact ⟨resolver, after, built, emitted, total⟩

end Build

end Arbor
