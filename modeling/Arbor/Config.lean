import Arbor.Build

/-!
# Configuration

The settings of a resolver: depths, feature count, and optionally a directory for cached evaluators
and a seed for generated trees and samples.

## Main definitions

* `Config`: the settings with their defaults.
* `Config.validate`: whether a resolver can be built with them.
* `Config.fallbackChunking`: another chunking for a depth, and under `Config.Bounded` the same with
  the faults that its steps could stop with.
* `Config.adapt`: the settings for a given tree, with another chunking if necessary.
* `Config.request`: the build that they describe.
-/

namespace Arbor

structure Config where
  treeDepth : UInt32 := 8
  featureCount : UInt32 := 16
  functionDepth : UInt32 := 4
  switchDepth : UInt32 := 2
  /-- Where evaluators are cached. Nothing is cached without it. -/
  cacheDir : Option String := none
  randomSeed : Option UInt64 := none
deriving DecidableEq, Repr, Inhabited

inductive ConfigError where
  | io (cause : IoFault)
  | toml
  | yaml
  | invalid (cause : Invalid)
deriving DecidableEq, Repr, Inhabited

def ConfigError.message : ConfigError → String
  | io cause => "IO error: " ++ cause.message
  | toml => "TOML parse error: unreadable document"
  | yaml => "YAML parse error: unreadable document"
  | invalid cause => cause.message

namespace Config

variable (config : Config)

/-- The geometry of the settings. A refusal is reported as the reason of another one. -/
def geometry : Except Invalid Geometry :=
  (Geometry.of config.treeDepth.toNat config.functionDepth.toNat
    config.switchDepth.toNat).mapError .wrapped

def validate : Except Invalid Unit :=
  if config.featureCount = 0 then .error .noFeatures
  else config.geometry.map fun _ => ()

/-- A chunking for a tree of `depth` levels. The switch depth is kept if it is possible and divides
the depth, and is one level otherwise. The function depth is the largest one that divides the depth
and is a multiple of the switch depth, up to the given function depth. -/
def fallbackChunking (depth functionDepth switchDepth : Nat) : Nat × Nat :=
  let switch := if 1 ≤ switchDepth ∧ switchDepth ≤ maxSwitchDepth ∧ depth % switchDepth = 0
    then switchDepth else 1
  let deepest := max switch (min functionDepth depth)
  let candidates := List.range' switch (deepest + 1 - switch)
  let function := candidates.reverse.find? fun f => depth % f = 0 && f % switch = 0
  (function.getD depth, switch)

namespace Bounded

def fallbackSwitch (depth switchDepth : Nat) : Except Fault Nat :=
  if 1 ≤ switchDepth ∧ switchDepth ≤ maxSwitchDepth then do
    return if (← Word.rem depth switchDepth) = 0 then switchDepth else 1
  else .ok 1

/-- Whether functions of `f` levels fill a tree of `depth` levels and are filled by switches of
`switch` levels. -/
def suits (depth switch f : Nat) : Except Fault Bool := do
  if (← Word.rem depth f) = 0 then return (← Word.rem f switch) == 0
  return false

def deepest? (depth functionDepth switch : Nat) : Except Fault (Option Nat) := do
  let last ← Word.clamp functionDepth switch depth
  (List.range' switch (last + 1 - switch)).reverse.findM? (suits depth switch)

/-- `Config.fallbackChunking` within words, where bounds may cross and remainders may be by zero. -/
def fallbackChunking (depth functionDepth switchDepth : Nat) : Except Fault (Nat × Nat) := do
  let switch ← fallbackSwitch depth switchDepth
  return ((← deepest? depth functionDepth switch).getD depth, switch)

end Bounded

def rechunk (depth : Nat) : Except Fault Config :=
  match config.validate with
  | .ok () => .ok config
  | .error _ => do
    let (functionDepth, switchDepth) ←
      Bounded.fallbackChunking depth config.functionDepth.toNat config.switchDepth.toNat
    return { config with
      functionDepth := functionDepth.toUInt32
      switchDepth := switchDepth.toUInt32 }

/-- The settings with the depth and the features of a tree. A chunking that does not suit the tree
is replaced. Feature counts are 32-bit words. -/
def adapt (tree : Tree) : Except Failure Config := do
  let features := max config.featureCount.toNat tree.requiredFeatures
  let adapted := { config with
    treeDepth := tree.depth.toUInt32
    featureCount := features.toUInt32 }
  let chunked ← adapted.rechunk tree.depth
  match chunked.validate with
  | .error cause => throw (.error (.invalid (.wrapped cause)))
  | .ok () => return chunked

/-- The build of a tree with the settings, which must be for its depth. -/
def request (tree : Tree) : Except Invalid Build.Request := do
  if config.treeDepth.toNat ≠ tree.depth then
    throw (.otherDepth config.treeDepth.toNat tree.depth)
  return ⟨tree, config.featureCount.toNat, config.functionDepth.toNat, config.switchDepth.toNat,
    none, config.cacheDir.isSome⟩

end Config

end Arbor
