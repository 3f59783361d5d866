import Arbor.Config
import Arbor.Yaml.Document

/-!
# Configurations in YAML

Settings are the keys of a mapping. Missing ones keep their defaults, other keys mean nothing, and a
document without content has only defaults. A setting must not be given twice.
-/

namespace Arbor

namespace Yaml

def digitsIn? (base : Nat) (digits : List Char) : Option Nat := do
  if digits.isEmpty then none
  let values ← digits.mapM fun c => (hexDigit? c).filter (· < base)
  let n := values.foldl (fun n digit => n * base + digit) 0
  if n < Word.limit then some n else none

/-- A natural number below `2 ^ 64`, with an optional plus sign: hexadecimal, octal, binary, or
decimal without leading zeros. -/
def natural? (text : String) : Option Nat :=
  let unsigned := match text.toList with
    | '+' :: rest => rest
    | input => input
  match unsigned with
  | '0' :: 'x' :: digits => digitsIn? 16 digits
  | '0' :: 'o' :: digits => digitsIn? 8 digits
  | '0' :: 'b' :: digits => digitsIn? 2 digits
  | ['0'] => some 0
  | '0' :: _ => none
  | digits => digitsIn? 10 digits

def commonTag (name : String) : List UInt8 := Nodes.octets ("tag:yaml.org,2002:" ++ name)

def isNull (text : String) : Bool := ["null", "Null", "NULL", "~"].contains text

namespace Scalar

variable (scalar : Scalar)

/-- A scalar as a natural number below `bound`. It has to be plain, or a literal block with the tag
of integers. -/
def natural? (bound : Nat) : Option Nat :=
  let readable := match scalar.style with
    | .plain => true
    | .literal => scalar.tag == some (commonTag "int")
    | _ => false
  if readable then (Yaml.natural? scalar.text).filter (· < bound) else none

/-- A scalar that may be left out. Plain scalars without a tag are, if they are empty or say so, and
so are scalars with the tag for that, which must not say anything else. -/
def ifGiven {α : Type} (read : Scalar → Option α) : Option (Option α) :=
  if scalar.style = .plain then
    match scalar.tag with
    | none => if scalar.text.isEmpty || isNull scalar.text then some none else some <$> read scalar
    | some tag =>
      if tag = commonTag "null" then
        if isNull scalar.text then some none else none
      else some <$> read scalar
  else some <$> read scalar

end Scalar

end Yaml

namespace Config

structure Given where
  treeDepth : Option UInt32 := none
  featureCount : Option UInt32 := none
  functionDepth : Option UInt32 := none
  switchDepth : Option UInt32 := none
  cacheDir : Option (Option String) := none
  randomSeed : Option (Option UInt64) := none

def once {α : Type} (before : Option α) (value : Option α) : Option (Option α) :=
  if before.isSome then none else some <$> value

def Given.enter (settings : Given) (key : String) (value : Option Yaml.Scalar) :
    Option Given := do
  let word : Option UInt32 :=
    (value >>= fun scalar => scalar.natural? UInt32.size).map Nat.toUInt32
  match key with
  | "tree_depth" => return { settings with treeDepth := ← once settings.treeDepth word }
  | "feature_count" => return { settings with featureCount := ← once settings.featureCount word }
  | "function_depth" => return { settings with functionDepth := ← once settings.functionDepth word }
  | "switch_depth" => return { settings with switchDepth := ← once settings.switchDepth word }
  | "cache_dir" =>
    let given := value >>= fun scalar => scalar.ifGiven fun scalar => some scalar.text
    return { settings with cacheDir := ← once settings.cacheDir given }
  | "random_seed" =>
    let given := value >>= fun scalar =>
      scalar.ifGiven fun scalar => (scalar.natural? UInt64.size).map Nat.toUInt64
    return { settings with randomSeed := ← once settings.randomSeed given }
  | _ => return settings

def Given.complete (settings : Given) : Config :=
  let config : Config := {}
  { treeDepth := settings.treeDepth.getD config.treeDepth
    featureCount := settings.featureCount.getD config.featureCount
    functionDepth := settings.functionDepth.getD config.functionDepth
    switchDepth := settings.switchDepth.getD config.switchDepth
    cacheDir := settings.cacheDir.join
    randomSeed := settings.randomSeed.join }

def ofDocument (document : Yaml.Document) : Option Config :=
  match document.root with
  | none => some {}
  | some (.scalar scalar) =>
    if scalar.style = .plain ∧ scalar.text.isEmpty then some {} else none
  | some (.mapping entries) => do
    let settings ← entries.foldlM (fun (settings : Given) (key, value) => do
      settings.enter (← document.scalar? key).text (document.scalar? value)) {}
    return settings.complete
  | some _ => none

def ofYaml (document : String) : Except ConfigError Config :=
  match Yaml.Document.parse document >>= ofDocument with
  | none => .error .yaml
  | some config => .ok config

end Config

end Arbor
