import Arbor.Index

/-!
# Bit positions

A switch evaluates all nodes of a subtree into one condition vector. Each node has a bit of the
vector, in breadth-first order from the root of the subtree.
-/

namespace Arbor.Evaluator

/-- The bit of a node in a condition vector, for the nodes that have one. -/
abbrev Offsets := Nat → Option Nat

/-- Offsets from a list of nodes and bits. Of two entries for a node the later one counts. -/
def Offsets.ofEntries (entries : List (Nat × Nat)) : Offsets := fun node =>
  (entries.reverse.find? (·.1 == node)).map (·.2)

def entriesFrom (root : Nat) : (count bit : Nat) → Except Fault (List (Nat × Nat))
  | 0, _ => .ok []
  | count + 1, bit => do
    let node ← Index.Bounded.subtreeNode root bit
    return (node, bit) :: (← entriesFrom root count (bit + 1))

def subtreeEntries (root levels : Nat) : Except Fault (List (Nat × Nat)) := do
  entriesFrom root (Word.low32 (← Index.Bounded.treeNodes levels)) 0

end Arbor.Evaluator
