import Arbor.Evaluator.Offsets

/-!
# Paths through a subtree

Every exit of a subtree is reached by one outcome of each node on the way to it. A leaf path is an
exit together with these outcomes, as bits of the condition vector. Paths are listed with true
branches before false ones, so from the highest exit to the lowest.
-/

namespace Arbor.Evaluator

/-- Required outcomes by bit, in increasing order of the bits. -/
abbrev PathBits := List (Nat × Bool)

namespace PathBits

/-- Requires an outcome, in place of one that was required before. -/
def insert (bit : Nat) (value : Bool) : PathBits → PathBits
  | [] => [(bit, value)]
  | (other, old) :: rest =>
    if bit < other then (bit, value) :: (other, old) :: rest
    else if bit = other then (bit, value) :: rest
    else (other, old) :: insert bit value rest

def ofEntries (entries : List (Nat × Bool)) : PathBits :=
  entries.foldl (fun bits entry => insert entry.1 entry.2 bits) []

def contains (bits : PathBits) (bit : Nat) : Bool := bits.any (·.1 == bit)

end PathBits

structure LeafPath where
  leaf : Nat
  bits : PathBits
deriving DecidableEq, Repr, Inhabited

def LeafPath.stamp (bit : Nat) (value : Bool) (path : LeafPath) : LeafPath :=
  { path with bits := path.bits.insert bit value }

/-- Requires one more outcome on the last `count` paths of a list. -/
def stampLast (count bit : Nat) (value : Bool) (paths : List LeafPath) :
    Except Fault (List LeafPath) := do
  let start ← Word.sub paths.length count
  return paths.take start ++ (paths.drop start).map (.stamp bit value)

/-- Appends the paths that leave the `levels` levels from `node` on. The paths below a child are
appended first and get the outcome that leads to the child afterwards. -/
def collectPaths (offsets : Offsets) : (levels node : Nat) → (paths : List LeafPath) →
    Except Fault (List LeafPath)
  | 0, node, paths => .ok (paths ++ [⟨node, []⟩])
  | levels + 1, node, paths => do
    match offsets node with
    | none => throw .missingKey
    | some bit =>
      let count ← Index.Bounded.nodesOnLevel levels
      let paths ← collectPaths offsets levels (← Index.Bounded.trueChild node) paths
      let paths ← stampLast count bit true paths
      let paths ← collectPaths offsets levels (← Index.Bounded.falseChild node) paths
      stampLast count bit false paths

/-- The `2 ^ levels` paths through the subtree of `root`. -/
def leafPaths (root levels : Nat) (offsets : Offsets) : Except Fault (List LeafPath) := do
  let _ ← Index.Bounded.nodesOnLevel levels
  collectPaths offsets levels root []

end Arbor.Evaluator
