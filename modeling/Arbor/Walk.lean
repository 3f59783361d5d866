import Arbor.Tree

/-!
# Walking a tree

The reference evaluator. From the root, the outcome of each node's predicate decides at which child
the walk continues; after as many steps as the tree is deep it stands on a leaf.
-/

namespace Arbor.Tree

variable (tree : Tree) (features : Array Float32)

def step (index : Nat) : Except Fault Nat := do
  let node ← tree.node index
  return Index.child (← node.evaluate features) index

/-- The walk from `index` for at most `levels` steps, ending early on a leaf. -/
def walk : (levels index : Nat) → Except Fault Nat
  | 0, index => .ok index
  | levels + 1, index => do
    if tree.isLeaf index then return index
    walk levels (← tree.step features index)

def interpret : Except Fault Nat := tree.walk features tree.depth 0

/-- The nodes on levels `0, F, 2F, …` that the walk visits, from `index` on `level` for at most
`levels` steps. -/
def hopsFrom (functionDepth : Nat) : (levels level index : Nat) → Except Fault (List Nat)
  | 0, _, _ => .ok []
  | levels + 1, level, index => do
    if tree.isLeaf index then return []
    let onBoundary := (← Word.rem level functionDepth) == 0
    let rest ← hopsFrom functionDepth levels (level + 1) (← tree.step features index)
    return if onBoundary then index :: rest else rest

def interpretHops (functionDepth : Nat) : Except Fault (List Nat) :=
  tree.hopsFrom features functionDepth tree.depth 0 0

end Arbor.Tree
