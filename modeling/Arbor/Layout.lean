import Arbor.Index

/-!
# Boundary nodes and their slots

A tree of depth `D` is cut into functions of `F` levels. The roots of these functions, the boundary
nodes, are the nodes on levels `0, F, 2F, …` below `D`. A layout numbers them without holes, level
by level and from left to right, so that a table of functions has one slot for each.

## Main definitions

* `Layout.functionCount`: how many boundary nodes there are.
* `Layout.of`: the layout of a tree depth and a function depth.
* `Layout.isBoundary`, `Layout.slot`: membership and slot of a node.
* `Layout.nodes`: the boundary nodes in the order of their slots.
-/

namespace Arbor

/-- The first slot of every boundary level. -/
structure Layout where
  treeDepth : Nat
  functionDepth : Nat
  levelStarts : Array Nat
deriving DecidableEq, Repr, Inhabited

namespace Layout

/-- Number of boundary levels, `⌈D / F⌉`. -/
def levelCount (treeDepth functionDepth : Nat) : Nat :=
  (treeDepth + functionDepth - 1) / functionDepth

def countFrom (functionDepth : Nat) : (count level total : Nat) → Except Fault Nat
  | 0, _, total => .ok total
  | count + 1, level, total => do
    countFrom functionDepth count (level + functionDepth) (← Word.add total (← Word.bit level))

/-- Number of boundary nodes, `∑ 2 ^ (F * i)` over the boundary levels. -/
def functionCount (treeDepth functionDepth : Nat) : Except Fault Nat :=
  if functionDepth = 0 then .error .divisionByZero
  else countFrom functionDepth (levelCount treeDepth functionDepth) 0 0

/-- First slots of the boundary levels from `level` on, of which the first starts at `next`. There
are at most `bound` of them. -/
def startsFrom (treeDepth functionDepth : Nat) : (bound level next : Nat) → Except Fault (List Nat)
  | 0, _, _ => .ok []
  | bound + 1, level, next =>
    if level < treeDepth then do
      let after ← Word.add next (← Word.bit level)
      return next :: (← startsFrom treeDepth functionDepth bound (level + functionDepth) after)
    else .ok []

/-- The layout of a tree of `treeDepth` levels in functions of `functionDepth` levels. If the
boundary levels of a non-empty tree are zero levels apart, their slots outgrow every word. -/
def of (treeDepth functionDepth : Nat) : Except Fault Layout := do
  if functionDepth = 0 then
    if treeDepth = 0 then return ⟨treeDepth, functionDepth, #[]⟩ else throw .addOverflow
  let starts ← startsFrom treeDepth functionDepth treeDepth 0 0
  return ⟨treeDepth, functionDepth, starts.toArray⟩

variable (layout : Layout)

def size : Except Fault Nat := functionCount layout.treeDepth layout.functionDepth

def isEmpty : Bool := layout.levelStarts.isEmpty

def isBoundary (index : Nat) : Except Fault Bool := do
  let level ← Index.Bounded.levelOf index
  if level < layout.treeDepth then
    return (← Word.rem level layout.functionDepth) == 0
  return false

def slot (index : Nat) : Except Fault Nat := do
  let level ← Index.Bounded.levelOf index
  if (← Word.rem level layout.functionDepth) ≠ 0 then throw (.notBoundary index)
  let position := level / layout.functionDepth
  match layout.levelStarts[position]? with
  | none => throw (.outOfBounds layout.levelStarts.size position)
  | some start => return (← Word.add start index) - (← Index.Bounded.firstOnLevel level)

def levels : List Nat :=
  (List.range (levelCount layout.treeDepth layout.functionDepth)).map (layout.functionDepth * ·)

def nodes : List Nat :=
  layout.levels.flatMap fun level =>
    List.range' (Index.firstOnLevel level) (Index.nodesOnLevel level)

def takeNodes : (levels : List Nat) → (count : Nat) → List Nat
  | [], _ => []
  | level :: rest, count =>
    let here := min count (Index.nodesOnLevel level)
    List.range' (Index.firstOnLevel level) here ++ takeNodes rest (count - here)

/-- The first `count` boundary nodes. Levels must be at least one level apart. -/
def firstNodes (count : Nat) : Except Fault (List Nat) :=
  if layout.functionDepth = 0 then .error .zeroStep else .ok (takeNodes layout.levels count)

def allNodes : Except Fault (List Nat) :=
  if layout.functionDepth = 0 then .error .zeroStep else .ok layout.nodes

end Layout

end Arbor
