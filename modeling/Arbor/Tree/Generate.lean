import Arbor.Random.Source
import Arbor.Tree

/-!
# Generated trees

Random trees for tests and benchmarks, and two families of trees with a known answer:

* `Tree.bisection`: all nodes read feature 0, and the thresholds bisect the unit interval over and
  over, so the leaves order the input.
* `Tree.ownFeatures`: node `i` reads feature `i`, so each path can be chosen freely.
-/

namespace Arbor

/-- A node with a random operation, comparator and feature, which splits uniform input in half. -/
def Node.random (featureCount : Nat) : Random.Draw Node := do
  let operation := Operation.all.getD (← Random.Draw.below Operation.all.size) .bypass
  let comparator := if ← Random.Draw.coin then Comparator.lessThan else Comparator.greaterThan
  let feature ← Random.Draw.below (max featureCount 1)
  return ⟨feature.toUInt32, operation, comparator, operation.balancedBias⟩

namespace Tree

def plannedSize (depth : Nat) : Except Failure Nat := do
  let size ← Index.Bounded.treeNodes depth
  if maxTreeDepth < depth then throw (.error (.invalid (.tooDeep depth)))
  return size

def generated (nodes : Array Node) : Except Failure Tree :=
  match ofNodes nodes with
  | .ok tree => .ok tree
  | .error cause => .error (.error (.invalid cause))

def random (depth featureCount : Nat) : Random.Draw (Except Failure Tree) := do
  match plannedSize depth with
  | .error failure => return .error failure
  | .ok size => return generated (← (Node.random featureCount).many size)

/-- Node `index` of a bisection: the middle of its share of the unit interval. -/
def bisectionNode (index : Nat) : Node :=
  let level := Index.levelOf index
  let offset := index - Index.firstOnLevel level
  ⟨0, .bypass, .greaterThan,
    (2 * offset + 1).toUInt64.toFloat32 / (Nat.pow 2 (level + 1)).toUInt64.toFloat32⟩

/-- The tree whose thresholds bisect the unit interval. -/
def bisection (depth : Nat) : Except Failure Tree := do
  let size ← plannedSize depth
  generated (Array.ofFn fun index : Fin size => bisectionNode index)

def ownFeatureNode (index : Nat) : Node :=
  ⟨index.toUInt32, .bypass, .greaterThan, Operation.half⟩

/-- The tree in which node `i` reads feature `i`. -/
def ownFeatures (depth : Nat) : Except Failure Tree := do
  let size ← plannedSize depth
  generated (Array.ofFn fun index : Fin size => ownFeatureNode index)

end Tree

end Arbor
