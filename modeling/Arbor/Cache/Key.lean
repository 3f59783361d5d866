import Arbor.Geometry

/-!
# Cache keys

What identifies the entries of a build in a cache: its geometry and its feature count. There is one
entry for the tree, shared by all chunkings of a depth and feature count, and one for the module.
-/

namespace Arbor.Cache

structure Key where
  geometry : Geometry
  featureCount : Nat
deriving DecidableEq, Repr, Inhabited

namespace Key

variable (key : Key)

def treeEntry : String := s!"tree_{key.geometry.treeDepth}_{key.featureCount}.json"

def moduleEntry : String :=
  s!"evaluators_{key.geometry.treeDepth}_{key.featureCount}_"
    ++ s!"{key.geometry.functionDepth}_{key.geometry.switchDepth}.json"

end Key

end Arbor.Cache
