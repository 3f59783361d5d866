import Arbor.Compile
import Arbor.Config.Toml
import Arbor.Config.Yaml

/-!
# Configuration files

Settings from files on a host.

## Main definitions

* `Config.loadToml`, `Config.loadYaml`: settings from a file of one format.
* `Config.load`: settings from a file whose name tells the format.
* `Config.standard`: settings from the file with the usual name, or defaults.
-/

namespace Arbor

namespace Path

def fileName? (path : String) : Option String :=
  let names := (path.splitOn "/").filter fun name => name ≠ "" ∧ name ≠ "."
  names.getLast?.filter (· ≠ "..")

/-- What follows the last dot of the last name in a path. A dot at the start of the name does not
count. -/
def extension? (path : String) : Option String := do
  let parts := (← fileName? path).splitOn "."
  match parts.reverse with
  | last :: stem :: more => if stem = "" ∧ more = [] then none else some last
  | _ => none

end Path

namespace Config

variable {m : Type → Type} [Monad m] (host : Host m)

def loadWith (read : String → Except ConfigError Config) (path : String) :
    m (Except ConfigError Config) := do
  match ← host.readText path with
  | .error cause => return .error (.io cause)
  | .ok text => return read text

def loadToml (path : String) : m (Except ConfigError Config) := loadWith host ofToml path

def loadYaml (path : String) : m (Except ConfigError Config) := loadWith host ofYaml path

def isYamlPath (path : String) : Bool :=
  match Path.extension? path with
  | some "yaml" | some "yml" => true
  | _ => false

/-- Settings from a file, which is TOML unless its name says otherwise. -/
def load (path : String) : m (Except ConfigError Config) :=
  if isYamlPath path then loadYaml host path else loadToml host path

def standardPath : String := "treeforge.toml"

/-- Settings from the usual file. Without a readable one they are the defaults. -/
def standard : m Config := do
  match ← loadToml host standardPath with
  | .ok config => return config
  | .error _ => return {}

end Config

end Arbor
