import Arbor.Word

/-!
# Breadth-first numbering of a perfect binary tree

Nodes are numbered level by level from the root, which is node 0:

```text
Level 0:           [0]
Level 1:        [1]   [2]
Level 2:      [3][4] [5][6]
```

The false branch of node `i` continues at `2 * i + 1`, the true branch at `2 * i + 2`. The leaves of
a tree continue the numbering after its interior nodes. Inside the subtree of a node the same
numbering is used with the subtree's root as bit 0.

Every function comes in two forms: on all natural numbers, and, under `Index.Bounded`, within 64-bit
words, where it stops with a fault if an intermediate result does not fit.
-/

namespace Arbor.Index

def nodesOnLevel (level : Nat) : Nat := Nat.pow 2 level

def treeNodes (levels : Nat) : Nat := Nat.pow 2 levels - 1

def firstOnLevel (level : Nat) : Nat := treeNodes level

def levelOf (i : Nat) : Nat := (i + 1).log2

def falseChild (i : Nat) : Nat := 2 * i + 1

def trueChild (i : Nat) : Nat := 2 * i + 2

def child (outcome : Bool) (i : Nat) : Nat :=
  if outcome then trueChild i else falseChild i

/-- The node with breadth-first position `bit` in the subtree of `root`. -/
def subtreeNode (root bit : Nat) : Nat :=
  (root + 1) * Nat.pow 2 (levelOf bit) + (bit + 1 - Nat.pow 2 (levelOf bit)) - 1

namespace Bounded

def nodesOnLevel (level : Nat) : Except Fault Nat := Word.bit level

def treeNodes (levels : Nat) : Except Fault Nat := do
  return (← Word.bit levels) - 1

def firstOnLevel (level : Nat) : Except Fault Nat := treeNodes level

def levelOf (i : Nat) : Except Fault Nat := do
  return (← Word.add i 1).log2

def falseChild (i : Nat) : Except Fault Nat := do
  Word.add (← Word.mul 2 i) 1

def trueChild (i : Nat) : Except Fault Nat := do
  Word.add (← Word.mul 2 i) 2

def child (outcome : Bool) (i : Nat) : Except Fault Nat :=
  if outcome then trueChild i else falseChild i

def children (i : Nat) : Except Fault (Nat × Nat) := do
  return (← falseChild i, ← trueChild i)

/-- `Index.subtreeNode` within words: the start of the root's span on the node's level, plus the
offset of the node in that span. -/
def subtreeNode (root bit : Nat) : Except Fault Nat := do
  let rootLevel ← levelOf root
  let bitLevel ← levelOf bit
  let rootOffset ← Word.sub root (← firstOnLevel rootLevel)
  let span ← nodesOnLevel bitLevel
  let first ← Word.add (← firstOnLevel (rootLevel + bitLevel)) (← Word.mul rootOffset span)
  Word.add first (← Word.sub bit (← treeNodes bitLevel))

end Bounded

end Arbor.Index
