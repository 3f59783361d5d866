import Arbor.Cache.Key
import Arbor.Tree.Document

/-!
# Cached modules

All evaluators of a build as one document: the key it was made for, the tree, and the code of every
function as text. Reading accepts the members of an object in any order, and also lists of the
members' values.
-/

namespace Arbor.Cache

open Json

structure Function where
  symbol : String
  code : String
deriving DecidableEq, Repr, Inhabited

structure Module where
  key : Key
  tree : Tree
  functions : List Function

instance : BEq Module where
  beq a b := a.key == b.key && a.tree == b.tree && a.functions == b.functions

def Function.toJson (function : Function) : String :=
  "\x7b\"symbol\":" ++ quote function.symbol ++ ",\"clif\":" ++ quote function.code ++ "\x7d"

def Module.toJson (m : Module) : String :=
  "\x7b\"tree_depth\":" ++ toString m.key.geometry.treeDepth
    ++ ",\"feature_count\":" ++ toString m.key.featureCount
    ++ ",\"function_depth\":" ++ toString m.key.geometry.functionDepth
    ++ ",\"switch_depth\":" ++ toString m.key.geometry.switchDepth
    ++ ",\"tree\":" ++ m.tree.toJson
    ++ ",\"functions\":[" ++ String.intercalate "," (m.functions.map Function.toJson) ++ "]\x7d"

namespace Function

structure Members where
  symbol : Option String := none
  code : Option String := none

def readMember (name : String) (members : Members) : Reader Members := do
  match name with
  | "symbol" => return { members with symbol := ← Reader.once members.symbol Reader.string }
  | "clif" => return { members with code := ← Reader.once members.code Reader.string }
  | _ =>
    Reader.skip
    return members

def readObject : Reader Function := do
  match ← Reader.object Reader.string readMember {} with
  | ⟨some symbol, some code⟩ => return ⟨symbol, code⟩
  | _ => Reader.malformed

def readList : Reader Function := do
  Reader.symbol openBracket
  let symbol ← Reader.string
  Reader.comma
  let code ← Reader.string
  Reader.symbol closeBracket
  return ⟨symbol, code⟩

def read : Reader Function := do
  if (← Reader.peek) = some openBracket then readList else readObject

end Function

namespace Module

structure Members where
  treeDepth : Option Nat := none
  featureCount : Option Nat := none
  functionDepth : Option Nat := none
  switchDepth : Option Nat := none
  tree : Option Tree := none
  functions : Option (Array Function) := none

def readDepth : Reader Nat := Reader.natural 0x100000000

def readCount : Reader Nat := Reader.natural Word.limit

def readMember (name : String) (members : Members) : Reader Members := do
  match name with
  | "tree_depth" =>
    return { members with treeDepth := ← Reader.once members.treeDepth readDepth }
  | "feature_count" =>
    return { members with featureCount := ← Reader.once members.featureCount readCount }
  | "function_depth" =>
    return { members with functionDepth := ← Reader.once members.functionDepth readDepth }
  | "switch_depth" =>
    return { members with switchDepth := ← Reader.once members.switchDepth readDepth }
  | "tree" => return { members with tree := ← Reader.once members.tree Tree.read }
  | "functions" =>
    return { members with
      functions := ← Reader.once members.functions (Reader.array Function.read) }
  | _ =>
    Reader.skip
    return members

def ofMembers (treeDepth featureCount functionDepth switchDepth : Nat) (tree : Tree)
    (functions : Array Function) : Module :=
  ⟨⟨⟨treeDepth, functionDepth, switchDepth⟩, featureCount⟩, tree, functions.toList⟩

def readObject : Reader Module := do
  match ← Reader.object Reader.string readMember {} with
  | ⟨some treeDepth, some count, some functionDepth, some switchDepth, some tree,
      some functions⟩ =>
    return ofMembers treeDepth count functionDepth switchDepth tree functions
  | _ => Reader.malformed

def readList : Reader Module := do
  Reader.symbol openBracket
  let treeDepth ← readDepth
  Reader.comma
  let count ← readCount
  Reader.comma
  let functionDepth ← readDepth
  Reader.comma
  let switchDepth ← readDepth
  Reader.comma
  let tree ← Tree.read
  Reader.comma
  let functions ← Reader.array Function.read
  Reader.symbol closeBracket
  return ofMembers treeDepth count functionDepth switchDepth tree functions

def read : Reader Module := do
  if (← Reader.peek) = some openBracket then readList else readObject

def ofJson (bytes : List UInt8) : Except CorruptCause Module :=
  (Reader.document read bytes).mapError Problem.toCorruption

/-- The module in the entry with this name. What cannot be read is a corruption of the entry. -/
def ofEntry (entry : String) (bytes : List UInt8) : Except Error Module :=
  (ofJson bytes).mapError (.corrupt entry)

end Module

end Arbor.Cache
