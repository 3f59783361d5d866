import Arbor.Evaluator.Assemble
import Arbor.Evaluator.Variant
import Arbor.Geometry
import Arbor.Tree

/-!
# Emission

From a tree to the code of its evaluators. The levels of a function are emitted from the top down;
before each step the selector picks a strategy for the levels that are left.

## Main definitions

* `Jump.of`: tests, exits and table of a subtree that is left through one jump.
* `emit`: the code for some levels below a node.
* `Composed`, `composeFunction`: the named evaluators of a tree.
-/

namespace Arbor.Evaluator

/-- A subtree as one jump: its nodes, the nodes below it, and for each condition vector the number
of the exit. -/
structure Jump where
  tests : List Node
  exits : List Nat
  table : Array Nat

/-- The nodes of `count` positions of a subtree from `bit` on, with their indices. -/
def testsFrom (tree : Tree) (root : Nat) : (count bit : Nat) → Except Fault (List (Nat × Node))
  | 0, _ => .ok []
  | count + 1, bit => do
    let index ← Index.Bounded.subtreeNode root bit
    let node ← tree.node index
    return (index, node) :: (← testsFrom tree root count (bit + 1))

/-- Enters an arm for some condition vectors, where all entries have been `unused` so far. -/
def label (unused arm : Nat) : (vectors : List Nat) → (table : Array Nat) →
    Except Fault (Array Nat)
  | [], table => .ok table
  | vector :: rest, table =>
    match table[vector]? with
    | none => .error (.outOfBounds table.size vector)
    | some entry =>
      if entry = unused then label unused arm rest (table.setIfInBounds vector arm)
      else .error (.coveredTwice vector)

def fillTable (conditionBits unused : Nat) : (paths : List LeafPath) → (arm : Nat) →
    (table : Array Nat) → Except Fault (Array Nat)
  | [], _, table => .ok table
  | path :: rest, arm, table => do
    let table ← label unused arm (← variants conditionBits path.bits) table
    fillTable conditionBits unused rest (arm + 1) table

/-- The jump through the subtree of `root` with `levels` levels. -/
def Jump.of (tree : Tree) (root levels : Nat) : Except Fault Jump := do
  let conditionBits := Word.low32 (← Index.Bounded.treeNodes levels)
  let tests ← testsFrom tree root conditionBits 0
  let offsets := Offsets.ofEntries (tests.zipIdx.map fun (test, bit) => (test.1, bit))
  let paths ← leafPaths root levels offsets
  let empty := Array.replicate (Nat.pow 2 conditionBits) paths.length
  let table ← fillTable conditionBits paths.length paths 0 empty
  return ⟨tests.map (·.2), paths.map (·.leaf), table⟩

/-- The code for `remaining` levels from `root` on, as part of the function `symbol`. -/
def emit (tree : Tree) (selector : Selector) (symbol : String) (remaining root : Nat) :
    Except Failure Code :=
  let strategy := selector remaining
  let consumed := strategy.levels
  if _fits : 0 < consumed ∧ consumed ≤ remaining ∧ consumed ≤ maxSwitchDepth then
    let continueAt (node : Nat) : Except Failure Code :=
      if remaining - consumed = 0 then .ok (.goto node)
      else emit tree selector symbol (remaining - consumed) node
    match strategy with
    | .subtreeSwitch levels => do
      let jump ← Jump.of tree root levels
      return .switch jump.tests jump.table (← jump.exits.mapM continueAt)
    | .ifThenElse => do
      let test ← tree.node root
      let (falseChild, trueChild) ← Index.Bounded.children root
      let onTrue ← continueAt trueChild
      return .branch test onTrue (← continueAt falseChild)
  else .error (.error (.emit symbol (.misfit strategy remaining root)))
termination_by remaining
decreasing_by exact Nat.sub_lt (Nat.lt_of_lt_of_le _fits.1 _fits.2.1) _fits.1

def symbolOf (root : Nat) : String := s!"node_evaluator_{root}"

structure Composed where
  root : Nat
  symbol : String
  code : Code
deriving Inhabited

def Composed.function (composed : Composed) : Function := composed.code.assemble

def Composed.named (composed : Composed) : String × Function :=
  (composed.symbol, composed.function)

def composeFunction (tree : Tree) (functionDepth : Nat) (selector : Selector) (root : Nat) :
    Except Failure Composed := do
  let symbol := symbolOf root
  return ⟨root, symbol, ← emit tree selector symbol functionDepth root⟩

end Arbor.Evaluator
