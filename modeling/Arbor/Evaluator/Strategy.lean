/-!
# Strategies

A function body is emitted from the top down. With `r` levels left a selector chooses how the next
levels are emitted: a whole subtree through one jump table, or one node through a branch.
-/

namespace Arbor

inductive Strategy where
  /-- Evaluate a subtree of `levels` levels into a condition vector and jump through one table. -/
  | subtreeSwitch (levels : Nat)
  /-- Evaluate one node and branch on it. -/
  | ifThenElse
deriving DecidableEq, Repr, Inhabited

/-- Picks a strategy for the levels left in the current function. -/
abbrev Selector := Nat → Strategy

namespace Strategy

def levels : Strategy → Nat
  | subtreeSwitch levels => levels
  | ifThenElse => 1

def describe : Strategy → String
  | subtreeSwitch levels => s!"SubtreeSwitch \x7b levels: {levels} \x7d"
  | ifThenElse => "IfThenElse"

end Strategy

def Selector.uniform (switchDepth : Nat) : Selector := fun _ => .subtreeSwitch switchDepth

/-- With `r` levels left, entry `r - 1` decides; where there is none, a branch is emitted. -/
def Selector.ofEntries (entries : Array Strategy) : Selector
  | 0 => .ifThenElse
  | remaining + 1 => entries[remaining]?.getD .ifThenElse

end Arbor
