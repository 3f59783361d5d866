import Arbor.Proofs.Build.Conversation
import Arbor.Proofs.Evaluator.Chain

/-!
# Requests that are accepted

A request is refused for its geometry or for a feature that is missing. Otherwise emission can only
fail where the selector picks a strategy that does not fit the levels that are left. If that never
happens on the way down, every evaluator is composed, and a build without a cache succeeds.

## Main statements

* `compose_of_exhausts`, `compose_of_leftover`: whether all code is emitted.
* `Request.result_cases`: what a build without a cache returns.
* `Request.build_accepted`: a build without a cache succeeds and fulfils its request.
* `build_result`: which requests are refused, which fail and which succeed.
-/

namespace Arbor

open Index Evaluator

namespace Evaluator

variable {tree : Tree} {selector : Selector}

theorem compose_of_exhausts {geometry : Geometry} (pos : 0 < geometry.functionDepth)
    (depth : geometry.treeDepth = tree.depth) (chunks : geometry.functionDepth ∣ tree.depth)
    (exhausts : selector.Exhausts geometry.functionDepth) :
    ∃ functions, compose tree geometry selector = .ok functions := by
  have word : geometry.treeDepth ≤ 63 := depth ▸ tree.depth_le_word
  rw [compose_eq pos word]
  apply exists_mapM_eq_ok
  intro root member
  rw [depth] at member
  have deep := Layout.level_add_le pos chunks member
  obtain ⟨code, hcode⟩ := emit_of_exhausts (symbolOf root) exhausts pos deep
  exact ⟨⟨root, symbolOf root, code⟩, by simp [composeFunction, hcode]⟩

/-- The evaluator of the root is composed first, so what goes wrong goes wrong there. -/
theorem compose_of_leftover {geometry : Geometry} (pos : 0 < geometry.functionDepth)
    (depth : geometry.treeDepth = tree.depth) (chunks : geometry.functionDepth ∣ tree.depth)
    (stuck : selector.leftover geometry.functionDepth ≠ 0) :
    compose tree geometry selector =
      .error (.error (.emit (symbolOf 0)
        (.misfit (selector (selector.leftover geometry.functionDepth))
          (selector.leftover geometry.functionDepth)
          (rightmost (geometry.functionDepth - selector.leftover geometry.functionDepth) 0)))) := by
  have word : geometry.treeDepth ≤ 63 := depth ▸ tree.depth_le_word
  have deep : levelOf 0 + geometry.functionDepth ≤ tree.depth := by
    simpa using Nat.le_of_dvd tree.depth_pos chunks
  obtain ⟨others, first⟩ := @Layout.exists_nodes_eq_cons geometry.treeDepth
    geometry.functionDepth (depth ▸ tree.depth_pos) pos
  have fails := emit_of_leftover (symbolOf 0) stuck deep
  simp [compose_eq pos word, first, composeFunction, fails]

end Evaluator

namespace Build

variable {backend : Backend} {request : Request}

/-- Which requests are not refused. -/
theorem Request.check_eq (valid : Geometry.of request.tree.depth request.functionDepth
      request.switchDepth = .ok request.geometry)
    (enough : request.tree.requiredFeatures ≤ request.featureCount) :
    request.check = .ok request.geometry := by
  simp [check, valid, Nat.not_lt.2 enough]

theorem Request.check_eq_error : (∃ cause, request.check = .error cause) ↔
    (∃ cause, Geometry.of request.tree.depth request.functionDepth request.switchDepth =
      .error cause) ∨ request.featureCount < request.tree.requiredFeatures := by
  cases shaped : Geometry.of request.tree.depth request.functionDepth request.switchDepth with
  | error cause => simp [check, shaped]
  | ok geometry =>
    by_cases few : request.featureCount < request.tree.requiredFeatures <;>
      simp [check, shaped, few]

/-- A build without a cache refuses its request, or it returns what can be compiled. -/
theorem Request.result_cases (backend : Backend) (uncached : request.cached = false) {σ : Type}
    (partner : Partner (StateM σ)) (state : σ) :
    (∃ cause, request.check = .error cause ∧
      ((request.build backend).run partner state).1 = .error (.error (.invalid cause))) ∨
    (request.check = .ok request.geometry ∧ ∃ duration,
      ((request.build backend).run partner state).1 = (request.compiled backend).map
        fun functions => request.resolver duration (fresh backend functions)) := by
  have made := Dialogue.makes_run partner (request.build backend) state
  obtain ⟨cause, refused, -, returned⟩ | ⟨checked, engine, duration, made, returned⟩ :=
    table_of_makes made
  · exact .inl ⟨cause, refused, returned⟩
  · obtain ⟨-, pos, -, -⟩ := check_eq_ok checked
    refine .inr ⟨checked, duration, ?_⟩
    rw [returned, (engineFor_makes_plain pos uncached made).2]
    cases request.compiled backend <;> rfl

/-- A build without a cache returns what can be composed, if the backend accepts that. -/
theorem Request.run_plain (accepts : backend.AcceptsEmitted) (uncached : request.cached = false)
    (checked : request.check = .ok request.geometry) {σ : Type} (partner : Partner (StateM σ))
    (state : σ) :
    ∃ duration after, ((request.build backend).run partner).run state =
      ((compose request.tree request.geometry request.chooser).map fun functions =>
        request.resolver duration (fresh backend functions), after) := by
  obtain ⟨-, pos, -, -⟩ := check_eq_ok checked
  obtain ⟨cause, refused, -⟩ | ⟨-, duration, returned⟩ :=
    result_cases backend uncached partner state
  · simp [checked] at refused
  · rw [compiled_eq accepts pos] at returned
    exact ⟨duration, _, Prod.ext returned rfl⟩

/-- A build without a cache that is not refused succeeds, if its selector uses up the levels of a
function. -/
theorem Request.result_of_exhausts (accepts : backend.AcceptsEmitted)
    (uncached : request.cached = false) (checked : request.check = .ok request.geometry)
    (exhausts : request.chooser.Exhausts request.functionDepth) {σ : Type}
    (partner : Partner (StateM σ)) (state : σ) :
    ∃ resolver, ((request.build backend).run partner state).1 = .ok resolver := by
  obtain ⟨-, pos, chunks, -⟩ := check_eq_ok checked
  obtain ⟨functions, composed⟩ := @compose_of_exhausts request.tree request.chooser
    request.geometry pos rfl chunks exhausts
  obtain ⟨duration, after, built⟩ := run_plain accepts uncached checked partner state
  rw [composed] at built
  exact ⟨_, congrArg Prod.fst built⟩

/-- A request without a cache is fulfilled, if its geometry is valid, its selector uses up the
levels of a function, and it has features enough. -/
theorem Request.build_accepted (accepts : backend.AcceptsEmitted)
    (uncached : request.cached = false)
    (valid : Geometry.of request.tree.depth request.functionDepth request.switchDepth =
      .ok request.geometry)
    (enough : request.tree.requiredFeatures ≤ request.featureCount)
    (exhausts : request.chooser.Exhausts request.functionDepth) {σ : Type}
    (partner : Partner (StateM σ)) (state : σ) :
    ∃ resolver after, ((request.build backend).run partner).run state = (.ok resolver, after) ∧
      request.Fulfilled backend.arithmetic resolver := by
  obtain ⟨resolver, built⟩ :=
    result_of_exhausts accepts uncached (check_eq valid enough) exhausts partner state
  have built : ((request.build backend).run partner).run state = (.ok resolver, _) :=
    Prod.ext built rfl
  exact ⟨resolver, _, built, fulfilled_of_run built (by simp [uncached])⟩

/-- The default selector uses up the levels of every function of a valid geometry. -/
theorem Request.chooser_exhausts (unset : request.selector = none)
    (valid : Geometry.of request.tree.depth request.functionDepth request.switchDepth =
      .ok request.geometry) : request.chooser.Exhausts request.functionDepth := by
  obtain ⟨-, -, -, ⟨pos, narrow⟩, -, count, steps⟩ := Geometry.of_eq_ok.1 valid
  rw [chooser, unset, Option.getD_none, steps]
  exact Selector.uniform_exhausts pos narrow count

theorem symbolOf_zero : symbolOf 0 = "node_evaluator_0" := by decide +kernel

theorem message_of_root (strategy : Strategy) (left node : Nat) :
    (Failure.error (.emit (symbolOf 0) (.misfit strategy left node))).message =
      "Emit failure in node_evaluator_0: " ++
        (strategy.describe ++ s!" does not fit {left} remaining levels at node {node}") := by
  have opening : "Emit failure in " ++ symbolOf 0 ++ ": " =
      "Emit failure in node_evaluator_0: " := by decide +kernel
  rw [← opening]
  rfl

/-- A build without a cache that is not refused fails, if levels are left over. -/
theorem Request.result_of_leftover (accepts : backend.AcceptsEmitted)
    (uncached : request.cached = false) (checked : request.check = .ok request.geometry)
    (stuck : request.chooser.leftover request.functionDepth ≠ 0) {σ : Type}
    (partner : Partner (StateM σ)) (state : σ) :
    ((request.build backend).run partner state).1 = .error (.error (.emit (symbolOf 0)
      (.misfit (request.chooser (request.chooser.leftover request.functionDepth))
        (request.chooser.leftover request.functionDepth)
        (rightmost (request.functionDepth - request.chooser.leftover request.functionDepth)
          0)))) := by
  obtain ⟨-, pos, chunks, -⟩ := check_eq_ok checked
  obtain ⟨duration, after, built⟩ := run_plain accepts uncached checked partner state
  have fails := @compose_of_leftover request.tree request.chooser request.geometry pos rfl chunks
    stuck
  rw [fails] at built
  exact congrArg Prod.fst built

/-- A build without a cache refuses a request exactly if its geometry is not valid or it has too few
features. Otherwise it succeeds if the selector uses up the levels of a function, and if levels are
left over, it fails in the evaluator of the root, at the rightmost node that has them below it. -/
theorem build_result {backend : Backend} (accepts : backend.AcceptsEmitted) {request : Request}
    (uncached : request.cached = false) {σ : Type} {partner : Partner (StateM σ)} {state : σ}
    {result : Except Failure Resolver}
    (built : (((request.build backend).run partner).run state).1 = result) :
    ((∃ cause, result = .error (.error (.invalid cause))) ↔
      (∃ cause, Geometry.of request.tree.depth request.functionDepth request.switchDepth =
        .error cause) ∨ request.featureCount < request.tree.requiredFeatures) ∧
    (∀ geometry, Geometry.of request.tree.depth request.functionDepth request.switchDepth =
        .ok geometry → request.tree.requiredFeatures ≤ request.featureCount →
      (request.chooser.leftover request.functionDepth = 0 → ∃ resolver, result = .ok resolver) ∧
      ∀ left node, request.chooser.leftover request.functionDepth = left → left ≠ 0 →
        node = 2 ^ (request.functionDepth - left + 1) - 2 →
        ∃ failure, result = .error failure ∧
          failure = .error (.emit "node_evaluator_0" (.misfit (request.chooser left) left node)) ∧
          failure.message = "Emit failure in node_evaluator_0: " ++
            ((request.chooser left).describe ++
              s!" does not fit {left} remaining levels at node {node}")) ∧
    (request.selector = none →
      ∀ function cause, result ≠ .error (.error (.emit function cause))) := by
  obtain ⟨cause, refused, returned⟩ | ⟨checked, -⟩ :=
    Request.result_cases backend uncached partner state
  · have reason := Request.check_eq_error.1 ⟨cause, refused⟩
    obtain rfl := built.symm.trans returned
    refine ⟨⟨fun _ => reason, fun _ => ⟨cause, rfl⟩⟩, fun geometry valid enough => ?_, by simp⟩
    rcases reason with ⟨_, invalid⟩ | few
    · rw [valid] at invalid
      cases invalid
    · omega
  · have granted : ¬ ((∃ cause, Geometry.of request.tree.depth request.functionDepth
        request.switchDepth = .error cause) ∨
        request.featureCount < request.tree.requiredFeatures) := by
      intro reason
      obtain ⟨cause, refused⟩ := Request.check_eq_error.2 reason
      rw [checked] at refused
      cases refused
    by_cases spent : request.chooser.leftover request.functionDepth = 0
    · obtain ⟨resolver, returned⟩ := Request.result_of_exhausts accepts uncached checked
        (Selector.exhausts_iff.2 spent) partner state
      obtain rfl := built.symm.trans returned
      refine ⟨by simpa using granted, fun geometry _ _ => ⟨fun _ => ⟨resolver, rfl⟩, ?_⟩, by simp⟩
      rintro left node rfl stuck
      exact absurd spent stuck
    · have returned := Request.result_of_leftover accepts uncached checked spent partner state
      obtain rfl := built.symm.trans returned
      refine ⟨by simpa using granted,
        fun geometry _ _ => ⟨fun nothing => absurd nothing spent, ?_⟩, ?_⟩
      · rintro left node rfl - rfl
        rw [rightmost_root]
        refine ⟨_, rfl, ?_, message_of_root _ _ _⟩
        rw [symbolOf_zero]
      · intro unset
        obtain ⟨shape, shaped, -⟩ := bind_eq_ok.1 checked
        obtain ⟨rfl, -⟩ := Geometry.of_eq_ok.1 shaped
        exact absurd (Selector.exhausts_iff.1 (Request.chooser_exhausts unset shaped)) spent

/-- After a branch at the root, a switch is asked for that has more levels than are left. -/
def stuckRequest : Request :=
  { sampleRequest with
    selector := some (.ofEntries #[.ifThenElse, .subtreeSwitch 3, .ifThenElse]) }

theorem build_result_stuck : ∃ failure,
    ((stuckRequest.build .standard).run idle 0).1 = .error failure ∧
    failure.message = "Emit failure in node_evaluator_0: " ++
      "SubtreeSwitch \x7b levels: 3 \x7d does not fit 2 remaining levels at node 2" := by
  have left : stuckRequest.chooser.leftover stuckRequest.functionDepth = 2 := by
    have first : stuckRequest.chooser.Fits 3 := by decide
    have second : ¬ stuckRequest.chooser.Fits 2 := by decide
    exact (Selector.leftover_of_fits first).trans (Selector.leftover_of_not_fits second)
  have valid : Geometry.of stuckRequest.tree.depth stuckRequest.functionDepth
      stuckRequest.switchDepth = .ok stuckRequest.geometry := by decide
  have described : "SubtreeSwitch \x7b levels: 3 \x7d does not fit 2 remaining levels at node 2" =
      (stuckRequest.chooser 2).describe ++ " does not fit 2 remaining levels at node 2" := by
    decide +kernel
  obtain ⟨-, chain, -⟩ :=
    @build_result _ Backend.acceptsEmitted_standard stuckRequest rfl Nat idle 0 _ rfl
  obtain ⟨failure, failed, -, message⟩ := (chain _ valid (by decide)).2 2 2 left (by decide) rfl
  exact ⟨failure, failed, message.trans (congrArg _ described.symm)⟩

end Build

end Arbor
