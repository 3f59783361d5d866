import Arbor.Error
import Arbor.Index
import Arbor.Node

/-!
# Decision trees

A decision tree is a perfect binary tree of predicate nodes, stored in breadth-first order. A tree
of depth `D` holds `N = 2 ^ D - 1` interior nodes; its leaves are not stored, they are the indices
from `N` to `N + 2 ^ D - 1`.
-/

namespace Arbor

structure Tree where
  nodes : Array Node
  depth : Nat
  size_eq : nodes.size = Index.treeNodes depth
  depth_pos : 0 < depth
  depth_le : depth ≤ maxTreeDepth

namespace Tree

/-- The tree with these nodes. Their number has to be `2 ^ D - 1` for a positive `D` that is at most
`maxTreeDepth`. -/
def ofNodes (nodes : Array Node) : Except Invalid Tree :=
  let depth := Index.levelOf nodes.size
  if h : nodes.size = Index.treeNodes depth ∧ 0 < depth then
    if le : depth ≤ maxTreeDepth then .ok ⟨nodes, depth, h.1, h.2, le⟩
    else .error (.tooDeep depth)
  else .error (.notPerfect nodes.size)

instance : BEq Tree where
  beq a b := a.nodes == b.nodes && a.depth == b.depth

variable (tree : Tree)

/-- Number of interior nodes, which is also the first leaf. -/
def size : Nat := tree.nodes.size

def isEmpty : Bool := tree.nodes.isEmpty

def leafCount : Nat := Index.nodesOnLevel tree.depth

def isLeaf (index : Nat) : Bool := tree.size ≤ index

def get? (index : Nat) : Option Node := tree.nodes[index]?

def node (index : Nat) : Except Fault Node :=
  match tree.nodes[index]? with
  | none => .error (.outOfBounds tree.nodes.size index)
  | some node => .ok node

def maxFeature : Nat :=
  tree.nodes.foldl (fun largest node => max largest node.feature.toNat) 0

def requiredFeatures : Nat := tree.maxFeature + 1

end Tree

end Arbor
