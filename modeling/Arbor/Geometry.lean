import Arbor.Error
import Arbor.Layout

/-!
# Geometry

How the levels of a tree are folded into functions and switches: a tree of `D` levels in functions
of `F` levels, and every function in switches of `S` levels. A geometry is valid when `F` divides
`D`, `S` divides `F`, all three are positive, `D` is at most `maxTreeDepth` and `S` at most
`maxSwitchDepth`.
-/

namespace Arbor

structure Geometry where
  treeDepth : Nat
  functionDepth : Nat
  switchDepth : Nat
deriving DecidableEq, Repr, Inhabited

namespace Geometry

variable (geometry : Geometry)

/-- Refuses a geometry that is not valid, with the first rule it breaks. -/
def validate : Except Invalid Unit :=
  if geometry.treeDepth = 0 ∨ maxTreeDepth < geometry.treeDepth then
    .error (.treeDepth geometry.treeDepth)
  else if geometry.functionDepth = 0 ∨ geometry.switchDepth = 0 then
    .error .zeroDepth
  else if maxSwitchDepth < geometry.switchDepth then
    .error (.switchDepth geometry.switchDepth)
  else if geometry.treeDepth % geometry.functionDepth ≠ 0 then
    .error (.treeMultiple geometry.treeDepth geometry.functionDepth)
  else if geometry.functionDepth % geometry.switchDepth ≠ 0 then
    .error (.functionMultiple geometry.functionDepth geometry.switchDepth)
  else
    .ok ()

def of (treeDepth functionDepth switchDepth : Nat) : Except Invalid Geometry := do
  let geometry : Geometry := ⟨treeDepth, functionDepth, switchDepth⟩
  geometry.validate
  return geometry

def nodeCount : Except Fault Nat := Index.Bounded.treeNodes geometry.treeDepth

def functionCount : Except Fault Nat :=
  Layout.functionCount geometry.treeDepth geometry.functionDepth

def hops : Except Fault Nat := Word.div geometry.treeDepth geometry.functionDepth

def conditionBits : Except Fault Nat := do
  return Word.low32 (← Index.Bounded.treeNodes geometry.switchDepth)

end Geometry

end Arbor
