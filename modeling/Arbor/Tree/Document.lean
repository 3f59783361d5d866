import Arbor.Json.Number
import Arbor.Json.Text
import Arbor.Tree

/-!
# Trees as JSON

A tree is written as the list of its nodes, and a node as an object with the members
`feature_index`, `operation`, `comparator` and `bias`. Reading accepts the members in any order with
further ones between them, and also a list of the four values.
-/

namespace Arbor

open Json

def Node.toJson (node : Node) : String :=
  "\x7b\"feature_index\":" ++ toString node.feature.toNat
    ++ ",\"operation\":" ++ quote node.operation.name
    ++ ",\"comparator\":" ++ quote node.comparator.name
    ++ ",\"bias\":" ++ floatText node.bias ++ "\x7d"

def Tree.toJson (tree : Tree) : String :=
  "[" ++ String.intercalate "," (tree.nodes.toList.map Node.toJson) ++ "]"

namespace Node

structure Members where
  feature : Option Nat := none
  operation : Option Operation := none
  comparator : Option Comparator := none
  bias : Option Float32 := none

def featureLimit : Nat := 0x100000000

def readMember (name : String) (members : Members) : Reader Members := do
  match name with
  | "feature_index" =>
    return { members with feature := ← Reader.once members.feature (Reader.natural featureLimit) }
  | "operation" =>
    return { members with
      operation := ← Reader.once members.operation (Reader.choice Operation.ofName?) }
  | "comparator" =>
    return { members with
      comparator := ← Reader.once members.comparator (Reader.choice Comparator.ofName?) }
  | "bias" => return { members with bias := ← Reader.once members.bias Reader.float32 }
  | _ =>
    Reader.skip
    return members

def readObject : Reader Node := do
  let members ← Reader.object Reader.string readMember {}
  match members with
  | ⟨some feature, some operation, some comparator, some bias⟩ =>
    return ⟨feature.toUInt32, operation, comparator, bias⟩
  | _ => Reader.malformed

def readList : Reader Node := do
  Reader.symbol openBracket
  let feature ← Reader.natural featureLimit
  Reader.comma
  let operation ← Reader.choice Operation.ofName?
  Reader.comma
  let comparator ← Reader.choice Comparator.ofName?
  Reader.comma
  let bias ← Reader.float32
  Reader.symbol closeBracket
  return ⟨feature.toUInt32, operation, comparator, bias⟩

def read : Reader Node := do
  if (← Reader.peek) = some openBracket then readList else readObject

end Node

/-- A tree. A list of nodes that is no tree is refused as soon as the list ends. -/
def Tree.read : Reader Tree := do
  match Tree.ofNodes (← Reader.array Node.read) with
  | .ok tree => return tree
  | .error cause => throw (.refused cause)

def Tree.ofJson (bytes : List UInt8) : Except Problem Tree := Reader.document Tree.read bytes

end Arbor
