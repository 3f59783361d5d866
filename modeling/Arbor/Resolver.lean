import Arbor.Evaluator.Instruction
import Arbor.Geometry
import Arbor.Tree

/-!
# Resolvers

The evaluators of a tree as a table by slots, and the dispatch over them: from the root, the
evaluator of the current boundary node returns the next one, until it returns a leaf.
-/

namespace Arbor

/-- What a build did. The duration is in milliseconds. -/
structure Report where
  cacheHit : Bool
  emittedFunctions : Nat
  totalCases : Nat
  duration : Nat
deriving DecidableEq, Repr, Inhabited

structure Resolver where
  table : Array Evaluator.EntryPoint
  layout : Layout
  geometry : Geometry
  featureCount : Nat
  report : Report

namespace Resolver

variable (resolver : Resolver) (memory : Evaluator.Memory)

def functionCount : Nat := resolver.table.size

def isLeaf (index : Nat) : Bool := Index.treeNodes resolver.geometry.treeDepth ≤ index

def hop (index : Nat) : Except Fault Nat := do
  let slot ← resolver.layout.slot index
  match resolver.table[slot]? with
  | none => throw (.outOfBounds resolver.table.size slot)
  | some evaluator => return (← evaluator memory).toNat

/-- The boundary nodes from `index` on and the leaf after them, for at most `hops` hops. -/
def dispatch : (hops index : Nat) → Except Fault (List Nat × Nat)
  | 0, index => if resolver.isLeaf index then .ok ([], index) else .error (.notBoundary index)
  | hops + 1, index => do
    if resolver.isLeaf index then return ([], index)
    let (visited, leaf) ← dispatch hops (← resolver.hop memory index)
    return (index :: visited, leaf)

/-- The boundary nodes that are visited and the leaf that is reached. A dispatch that visits no
evaluator twice is done after at most as many hops as there are evaluators. -/
def travel : Except Fault (List Nat × Nat) :=
  resolver.dispatch memory resolver.functionCount 0

def checkFeatures : Except Fault Unit :=
  if resolver.featureCount ≤ memory.features.size then .ok ()
  else .error (.tooFewFeatures resolver.featureCount memory.features.size)

/-- The leaf that a feature vector reaches in `tree`, which must have the depth of the tree that the
resolver was built for. -/
def run (tree : Tree) : Except Fault Nat := do
  resolver.checkFeatures memory
  if tree.depth ≠ resolver.geometry.treeDepth then
    throw (.otherTree tree.depth resolver.geometry.treeDepth)
  return (← resolver.travel memory).2

def trace : Except Fault (List Nat) := do
  resolver.checkFeatures memory
  return (← resolver.travel memory).1

def describe : String :=
  s!"CompiledResolver \x7b geometry: Geometry \x7b tree_depth: {resolver.geometry.treeDepth}, "
    ++ s!"function_depth: {resolver.geometry.functionDepth}, "
    ++ s!"switch_depth: {resolver.geometry.switchDepth} \x7d, "
    ++ s!"feature_count: {resolver.featureCount}, functions: {resolver.functionCount}, "
    ++ s!"report: BuildReport \x7b cache_hit: {resolver.report.cacheHit}, "
    ++ s!"emitted_functions: {resolver.report.emittedFunctions}, "
    ++ s!"total_cases: {resolver.report.totalCases}, "
    ++ s!"duration_ms: {resolver.report.duration} \x7d \x7d"

end Resolver

end Arbor
