import Arbor.Command.Arguments
import Arbor.Config.Load
import Arbor.Samples
import Arbor.Tree.Generate

/-!
# Workloads

The random tree and the random samples that a command works on. The seed of the configuration fixes
both; without one it is zero.

## Main definitions

* `TreeArguments.apply`: a configuration with the arguments of a command.
* `Workload.of`: the tree and the samples of a configuration.
* `Workload.check`: how far a resolver agrees with the interpreter.
-/

namespace Arbor.Command

/-- The configuration with the given arguments in place of its settings. -/
def TreeArguments.apply (arguments : TreeArguments) (config : Config) : Config :=
  { treeDepth := arguments.depth.getD config.treeDepth
    featureCount := arguments.features.getD config.featureCount
    functionDepth := arguments.functionDepth.getD config.functionDepth
    switchDepth := arguments.switchDepth.getD config.switchDepth
    cacheDir := arguments.cacheDir <|> config.cacheDir
    randomSeed := arguments.seed <|> config.randomSeed }

def TreeArguments.resolve (arguments : TreeArguments) (config : Config) :
    Except ConfigError Config := do
  let resolved := arguments.apply config
  resolved.validate.mapError .invalid
  return resolved

structure Workload where
  tree : Tree
  samples : List (Array Float32)

namespace Workload

/-- The workload of a configuration with a number of samples. The samples have the seed after that
of the tree. -/
def of (config : Config) (samples : Nat) : Except Failure Workload := do
  let seed := config.randomSeed.getD 0
  let (tree, _) := Tree.random config.treeDepth.toNat config.featureCount.toNat (.ofSeed seed)
  let (batch, _) := Samples.randomBatch samples config.featureCount.toNat (.ofSeed (seed + 1))
  return ⟨← tree, batch.toList⟩

/-- The leaves of a resolver, and how many of them the interpreter does not find. -/
structure Outcome where
  mismatches : Nat := 0
  leaves : List Nat := []
deriving DecidableEq, Repr, Inhabited

def observe (resolver : Resolver) (tree : Tree) (outcome : Outcome) (features : Array Float32) :
    Except Fault Outcome := do
  let leaf ← resolver.run { features } tree
  let wanted ← tree.interpret features
  return ⟨outcome.mismatches + (if leaf = wanted then 0 else 1), leaf :: outcome.leaves⟩

def check (workload : Workload) (resolver : Resolver) : Except Fault Outcome :=
  workload.samples.foldlM (observe resolver workload.tree) {}

def distinctSorted : List Nat → Nat
  | a :: b :: rest => (if a = b then 0 else 1) + distinctSorted (b :: rest)
  | [_] => 1
  | [] => 0

def Outcome.distinct (outcome : Outcome) : Nat :=
  distinctSorted (outcome.leaves.mergeSort (· ≤ ·))

end Workload

end Arbor.Command
