import Arbor.Random.Source
import Arbor.Walk

/-!
# Feature vectors

Random feature vectors, and vectors that are steered down a chosen path: every node on the path gets
a value on the wanted side of its bias.
-/

namespace Arbor.Samples

open Arbor.Random

def random (featureCount : Nat) : Draw (Array Float32) := Draw.unit.many featureCount

def randomBatch (count featureCount : Nat) : Draw (Array (Array Float32)) :=
  (random featureCount).many count

def single (value : Float32) : Array Float32 := #[value]

/-- How far from the bias a steered value is, before the operation is undone. -/
def margin : Float32 := 0.25

def steer (node : Node) (outcome : Bool) : Float32 :=
  let above := (node.comparator == .greaterThan) == outcome
  let target := if above then node.bias + margin else node.bias - margin
  match node.operation with
  | .bypass => target
  | .ln => target.exp
  | .sqrt =>
    if 0.0 ≤ target then target * target
    else if 0.0 < node.bias then 0.0
    else -1.0

/-- Steers `features` along the rest of a path from `index`, ending early on a leaf. -/
def steerFrom (tree : Tree) : (path : List Bool) → (index : Nat) → (features : Array Float32) →
    Array Float32
  | [], _, features => features
  | outcome :: path, index, features =>
    match tree.get? index with
    | none => features
    | some node =>
      steerFrom tree path (Index.child outcome index)
        (features.setIfInBounds node.feature.toNat (steer node outcome))

/-- The vector that is zero except for the features that steer down `path`. -/
def steered (tree : Tree) (path : List Bool) : Array Float32 :=
  steerFrom tree path 0 (Array.replicate tree.requiredFeatures 0.0)

end Arbor.Samples
