import Arbor.Proofs.Build.Shared

/-!
# Dispatch is exact

What a successful build promises about the dispatch over its evaluators: which nodes it visits, that
it ends, and that nothing can go wrong on the way.

## Main definitions

* `Request.Obtains`: the resolvers that a request can get.

## Main statements

* `Request.Obtains.fulfilled`: each of them fulfils its request.
* `dispatch_exact`: the whole promise.
-/

namespace Arbor.Build

open Evaluator Index

/-- The resolvers that a request can get. Evaluators that are composed are good whatever the build
was answered. Those of a hit come from a store that builders have filled, with texts that are read
as they were meant. -/
inductive Request.Obtains : Request → Backend → Resolver → Prop
  | composed {backend : Backend} {request : Request} {σ : Type} {partner : Partner (StateM σ)}
    {state after : σ} {resolver : Resolver}
    (built : ((request.build backend).run partner).run state = (.ok resolver, after))
    (composed : request.cached = true → resolver.report.cacheHit = false) :
    Obtains request backend resolver
  | shared {backend : Backend} (legible : backend.Legible) {ι : Type} [DecidableEq ι]
    {requests : ι → Request} {schedule : List (Move ι)} {i : ι} {resolver : Resolver}
    (built : ((Shared.start backend requests).run schedule).rest i = .done (.ok resolver)) :
    Obtains (requests i) backend resolver

variable {backend : Backend} {request : Request} {resolver : Resolver}

theorem Request.Obtains.fulfilled (obtained : request.Obtains backend resolver) :
    request.Fulfilled backend.arithmetic resolver := by
  cases obtained with
  | composed built composed => exact fulfilled_of_run built composed
  | shared legible built => exact Shared.fulfilled_of_run legible built

/-- The dispatch of a resolver that was built visits, for every feature vector that is long enough,
one boundary node of the walk for each function below each other, and ends at a leaf. No slot is
asked for a node without one or lies outside the table, and no evaluator can go wrong. -/
theorem dispatch_exact (precise : backend.arithmetic.Exact)
    (obtained : request.Obtains backend resolver) {memory : Memory}
    (long : request.featureCount ≤ memory.features.size) :
    resolver.geometry = request.geometry ∧
    ∃ hops leaf,
      resolver.trace memory = .ok hops ∧
      request.tree.interpretHops memory.features request.functionDepth = .ok hops ∧
      hops.length = request.tree.depth / request.functionDepth ∧
      (∀ k index, hops[k]? = some index → levelOf index = k * request.functionDepth) ∧
      resolver.run memory request.tree = .ok leaf ∧
      resolver.Loops memory 0 hops leaf ∧
      (treeNodes request.tree.depth ≤ leaf ∧
        leaf < treeNodes request.tree.depth + 2 ^ request.tree.depth) ∧
      (∀ index ∈ hops, resolver.layout.isBoundary index = .ok true ∧
        ∃ slot, resolver.layout.slot index = .ok slot ∧ slot < resolver.table.size) ∧
      ∀ entry ∈ resolver.table, ∃ code : Code,
        entry = code.assemble.run backend.arithmetic ∧ code.Safe memory.features.size ∧
        ∃ node, entry memory = .ok node := by
  have fulfilled := obtained.fulfilled
  obtain ⟨source, alike, serves⟩ := fulfilled.serves
  have functionDepth : resolver.geometry.functionDepth = request.functionDepth :=
    congrArg Geometry.functionDepth fulfilled.geometry_eq
  rw [← fulfilled.featureCount_eq] at long
  have required := serves.required_le.trans long
  have hops :=
    source.interpretHops_eq required serves.functionDepth_pos serves.functionDepth_dvd
  rw [← functionDepth, ← alike.depth_eq]
  refine ⟨fulfilled.geometry_eq, _, _, (serves.trace_eq precise long).trans hops, ?_,
    source.length_boundaryWalk memory.features _, fun k index visited => ?_, ?_,
    serves.loops precise long, source.leaf_mem_range memory.features, fun index member => ?_,
    serves.safe precise long⟩
  · rw [← alike.interpretHops_eq required serves.functionDepth_pos serves.functionDepth_dvd, hops]
  · exact (source.levelOf_boundaryWalk visited).1
  · rw [serves.run_eq precise long alike.depth_eq.symm, source.interpret_eq required]
  · obtain ⟨k, visited⟩ := List.mem_iff_getElem?.1 member
    obtain ⟨level, inside⟩ := source.levelOf_boundaryWalk visited
    rw [Nat.mul_comm] at level
    refine serves.slot_lt level ?_
    rw [level, ← Nat.mul_div_cancel' serves.functionDepth_dvd]
    exact Nat.mul_lt_mul_of_pos_left inside serves.functionDepth_pos

def alternatingTree : Tree where
  nodes := ((List.range 15).map fun i =>
    ⟨UInt32.ofNat (i % 2), .bypass, .greaterThan, 0.5⟩).toArray
  depth := 4
  size_eq := rfl
  depth_pos := by decide
  depth_le := by decide

/-- Five functions with a switch over two levels each. -/
def alternatingRequest : Request where
  tree := alternatingTree
  featureCount := 2
  functionDepth := 2
  switchDepth := 2
  selector := none
  cached := false

theorem dispatch_exact_alternating : ∃ resolver,
    alternatingRequest.Obtains .standard resolver ∧
    ∃ hops leaf,
      resolver.trace { features := #[0.75, 0.25] } = .ok hops ∧
      alternatingTree.interpretHops #[0.75, 0.25] 2 = .ok hops ∧
      hops.length = 2 ∧
      resolver.Loops { features := #[0.75, 0.25] } 0 hops leaf ∧
      15 ≤ leaf ∧ leaf < 31 := by
  have succeeds : (((alternatingRequest.build .standard).run idle).run 0).1.isOk = true := by
    decide +kernel
  obtain ⟨resolver, after, built⟩ := exists_of_isOk succeeds
  have obtained : alternatingRequest.Obtains .standard resolver := .composed built nofun
  obtain ⟨-, hops, leaf, traced, walked, length, -, -, loops, range, -⟩ :=
    @dispatch_exact _ _ _ Backend.exact_standard obtained { features := #[0.75, 0.25] } (by decide)
  exact ⟨resolver, obtained, hops, leaf, traced, walked, length, loops, range⟩

end Arbor.Build
