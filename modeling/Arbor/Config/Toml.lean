import Arbor.Config
import Arbor.Toml.Document

/-!
# Configurations in TOML

Settings are the top-level keys of their names. Missing ones keep their defaults, and other keys
mean nothing.
-/

namespace Arbor

def Toml.Value.natural? (bound : Nat) : Toml.Value → Option Nat
  | .integer (.ofNat n) => if n < bound then some n else none
  | _ => none

def Toml.Value.text? : Toml.Value → Option String
  | .text content => some content
  | _ => none

def Toml.Entries.setting {α : Type} (entries : Toml.Entries) (key : String)
    (read : Toml.Value → Option α) (fallback : α) : Option α :=
  match entries.find? key with
  | none => some fallback
  | some value => read value

namespace Config

def ofEntries (entries : Toml.Entries) : Option Config := do
  let word (key : String) (fallback : UInt32) : Option UInt32 :=
    entries.setting key (fun value => (value.natural? UInt32.size).map Nat.toUInt32) fallback
  let config : Config := {}
  return {
    treeDepth := ← word "tree_depth" config.treeDepth
    featureCount := ← word "feature_count" config.featureCount
    functionDepth := ← word "function_depth" config.functionDepth
    switchDepth := ← word "switch_depth" config.switchDepth
    cacheDir := ← entries.setting "cache_dir" (fun value => value.text?.map some) none
    randomSeed := ← entries.setting "random_seed"
      (fun value => (value.natural? UInt64.size).map (some ·.toUInt64)) none }

def ofToml (document : String) : Except ConfigError Config :=
  match Toml.parse document >>= ofEntries with
  | none => .error .toml
  | some config => .ok config

end Config

end Arbor
