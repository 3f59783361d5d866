import Arbor.Proofs.Json.Refusal
import Arbor.Proofs.Json.Text
import Arbor.Proofs.Walk

/-!
# Trees as JSON and back

A node is read back from its object member by member, and a tree from the list of its nodes. The
only nodes that cannot be read back are those whose bias is no finite number: their bias is written
as `null`, and reading stops there.

## Main statements

* `Node.reads_toJson`, `Node.stops_toJson`: which nodes are read back.
* `Tree.reads_toJson`, `Tree.stops_toJson`: which trees are read back.
* `Tree.ofJson_toJson`: a tree with finite biases is the only one with its document.
-/

namespace Arbor

open Json
open Build (bytesOf)

variable {sure : Prop}

theorem Json.Reads.once {α : Type} {reader : Reader α} {text : List UInt8} {a : α}
    (h : Reads sure reader text a) : Reads sure (Reader.once none reader) text (some a) := by
  exact h.map some

namespace Node

def shape (node : Node) : List (String × List UInt8) :=
  [("feature_index", bytesOf (toString node.feature.toNat)),
    ("operation", bytesOf (quote node.operation.name)),
    ("comparator", bytesOf (quote node.comparator.name))]

def written (node : Node) : List (String × List UInt8) :=
  node.shape ++ [("bias", bytesOf (floatText node.bias))]

theorem bytesOf_toJson (node : Node) :
    bytesOf node.toJson = enclose openBrace closeBrace (node.written.map member) := by
  have feature : bytesOf "\x7b\"feature_index\":" =
      openBrace :: bytesOf (quote "feature_index") ++ [colonByte] := bytesOf_key rfl
  have operation : bytesOf ",\"operation\":" =
      commaByte :: bytesOf (quote "operation") ++ [colonByte] := bytesOf_key rfl
  have comparator : bytesOf ",\"comparator\":" =
      commaByte :: bytesOf (quote "comparator") ++ [colonByte] := bytesOf_key rfl
  have bias : bytesOf ",\"bias\":" = commaByte :: bytesOf (quote "bias") ++ [colonByte] :=
    bytesOf_key rfl
  have close : bytesOf "\x7d" = [closeBrace] := (bytesOf_eq _).trans rfl
  unfold toJson
  simp only [written, shape, enclose_cons, commas, member, bytesOf_append, feature, operation,
    comparator, bias, close, List.map_cons, List.map_nil, List.flatMap_cons, List.flatMap_nil,
    List.append_assoc, List.cons_append, List.nil_append, List.append_nil]

theorem gathers_shape (node : Node) : Gathers sure readMember {} node.shape
    ⟨some node.feature.toNat, some node.operation, some node.comparator, none⟩ := by
  have feature : Reads sure (Reader.natural featureLimit) (bytesOf (toString node.feature.toNat))
      node.feature.toNat := Reads.natural (by decide) fun _ => node.feature.toNat_lt
  have operation : Reads sure (Reader.choice Operation.ofName?)
      (bytesOf (quote node.operation.name)) node.operation :=
    Reads.choice node.operation.ofName?_name
  have comparator : Reads sure (Reader.choice Comparator.ofName?)
      (bytesOf (quote node.comparator.name)) node.comparator :=
    Reads.choice node.comparator.ofName?_name
  refine .cons (feature.once.map fun a => Members.mk a none none none) ?_
  refine .cons (operation.once.map fun a => Members.mk _ a none none) ?_
  exact .cons (comparator.once.map fun a => Members.mk _ _ a none) (.nil _)

/-- A node is read back, if its bias is finite. -/
theorem reads_toJson (node : Node) (finite : sure → node.bias.isFinite = true) :
    Reads sure Node.read (bytesOf node.toJson) node := by
  have members : Gathers sure readMember {} node.written
      ⟨some node.feature.toNat, some node.operation, some node.comparator, some node.bias⟩ :=
    node.gathers_shape.append
      (.cons ((Reads.float32 finite).once.map fun a => Members.mk _ _ _ a) (.nil _))
  have object : Reads sure readObject (bytesOf node.toJson) node := by
    rw [bytesOf_toJson]
    obtain ⟨⟩ | ⟨first, others⟩ := members
    refine (Reads.object Reads.string first others).bind_pure ?_
    change pure (Node.mk (UInt32.ofNat node.feature.toNat) _ _ _) = pure node
    rw [UInt32.ofNat_toNat]
  rw [bytesOf_toJson] at object ⊢
  exact Reads.of_object object

/-- A node is refused, if its bias is not finite. -/
theorem stops_toJson (node : Node) (infinite : node.bias.isFinite = false) :
    Stops Node.read (bytesOf node.toJson) := by
  have bias : Stops (readMember "bias"
      ⟨some node.feature.toNat, some node.operation, some node.comparator, none⟩)
      (bytesOf (floatText node.bias)) := (stops_float32 infinite).once.bind _
  have object : Stops readObject (bytesOf node.toJson) := by
    rw [bytesOf_toJson]
    exact (Stops.object Reads.string node.gathers_shape bias []).bind _
  rw [bytesOf_toJson] at object ⊢
  exact Stops.of_object object

end Node

namespace Tree

variable {tree : Tree}

theorem bytesOf_toJson (tree : Tree) :
    bytesOf tree.toJson =
      enclose openBracket closeBracket (tree.nodes.toList.map fun node => bytesOf node.toJson) := by
  have opening : bytesOf "[" = [openBracket] := (bytesOf_eq _).trans rfl
  have closing : bytesOf "]" = [closeBracket] := (bytesOf_eq _).trans rfl
  unfold toJson
  rw [bytesOf_append, bytesOf_append, opening, closing, List.singleton_append, enclose_bytesOf,
    List.map_map]
  rfl

/-- A tree is read back, if its biases are finite. -/
theorem reads_toJson (tree : Tree)
    (finite : sure → ∀ node ∈ tree.nodes, node.bias.isFinite = true) :
    Reads sure Tree.read (bytesOf tree.toJson) tree := by
  have items : List.Forall₂ (Reads sure Node.read)
      (tree.nodes.toList.map fun node => bytesOf node.toJson) tree.nodes.toList := by
    rw [List.forall₂_map_left_iff, List.forall₂_same]
    exact fun node mem => node.reads_toJson fun h => finite h node (Array.mem_def.2 mem)
  rw [bytesOf_toJson]
  refine (Reads.array items ?_).bind_pure ?_
  · intro text mem
    obtain ⟨node, -, rfl⟩ := List.mem_map.1 mem
    exact ⟨_, node.bytesOf_toJson⟩
  · rw [Array.toArray_toList, ofNodes_eq_ok.2 rfl]

/-- A tree is refused, if one of its biases is not finite. -/
theorem stops_toJson (tree : Tree) (infinite : ∃ node ∈ tree.nodes, node.bias.isFinite = false) :
    Stops Tree.read (bytesOf tree.toJson) := by
  rw [bytesOf_toJson]
  refine (Stops.array ?_ ?_ ?_).bind _
  · intro text mem
    obtain ⟨node, -, rfl⟩ := List.mem_map.1 mem
    cases finite : node.bias.isFinite with
    | false => exact .inl (node.stops_toJson finite)
    | true => exact .inr ⟨node, node.reads_toJson fun _ => finite⟩
  · obtain ⟨node, mem, infinite⟩ := infinite
    exact ⟨_, List.mem_map.2 ⟨node, Array.mem_def.1 mem, rfl⟩, node.stops_toJson infinite⟩
  · intro text mem
    obtain ⟨node, -, rfl⟩ := List.mem_map.1 mem
    exact ⟨_, node.bytesOf_toJson⟩

/-- A tree with finite biases is read back from its document, and no other tree has this
document. -/
theorem ofJson_toJson (finite : ∀ node ∈ tree.nodes, node.bias.isFinite = true) :
    ofJson (bytesOf tree.toJson) = .ok tree ∧
      ∀ other : Tree, other.toJson = tree.toJson → other = tree := by
  have read : ofJson (bytesOf tree.toJson) = .ok tree :=
    (tree.reads_toJson fun _ => finite).document.eq_ok trivial
  refine ⟨read, fun other same => ?_⟩
  have otherwise : Yields False (ofJson (bytesOf other.toJson)) other :=
    (other.reads_toJson False.elim).document
  rw [same] at otherwise
  exact (otherwise.eq_of_ok read).symm

def extremes : Tree where
  nodes := #[⟨0, .bypass, .lessThan, Float32.ofBits 1⟩,
    ⟨0xffffffff, .sqrt, .greaterThan, Float32.ofBits 0x80000000⟩,
    ⟨7, .ln, .lessThan, Float32.ofBits 0x7f7fffff⟩]
  depth := 2
  size_eq := rfl
  depth_pos := by decide
  depth_le := by decide

theorem ofJson_toJson_extremes :
    (∀ node ∈ extremes.nodes, node.bias.isFinite = true) ∧
      ofJson (bytesOf extremes.toJson) = .ok extremes ∧
      ∀ other : Tree, other.toJson = extremes.toJson → other = extremes := by
  have finite : ∀ node ∈ extremes.nodes, node.bias.isFinite = true := by decide +kernel
  exact ⟨finite, ofJson_toJson finite⟩

end Tree

end Arbor
