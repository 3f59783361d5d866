import Arbor.Proofs.Tree.Document

/-!
# Cached modules as JSON and back

A module is read back from its document. Two things can stop the reader: a bias that is no finite
number, and a number in the key that is too large for its member. In both cases nothing is returned,
so whatever is read from the document of a module is this module.

## Main statements

* `Function.reads_toJson`: the code of a function is read back.
* `Module.reads_toJson`, `Module.stops_toJson`: which modules are read back.
* `Module.eq_of_ofJson`: only the module itself is read from its document.
* `Module.ofEntry_toJson`: what becomes of the document of any module.
-/

namespace Arbor.Cache

open Json
open Build (bytesOf)

variable {sure : Prop}

namespace Function

def written (function : Function) : List (String × List UInt8) :=
  [("symbol", bytesOf (quote function.symbol)), ("clif", bytesOf (quote function.code))]

theorem bytesOf_toJson (function : Function) :
    bytesOf function.toJson = enclose openBrace closeBrace (function.written.map member) := by
  have symbol : bytesOf "\x7b\"symbol\":" =
      openBrace :: bytesOf (quote "symbol") ++ [colonByte] := bytesOf_key rfl
  have code : bytesOf ",\"clif\":" = commaByte :: bytesOf (quote "clif") ++ [colonByte] :=
    bytesOf_key rfl
  have close : bytesOf "\x7d" = [closeBrace] := (bytesOf_eq _).trans rfl
  unfold toJson
  simp only [written, enclose_cons, commas, member, bytesOf_append, symbol, code, close,
    List.map_cons, List.map_nil, List.flatMap_cons, List.flatMap_nil, List.append_assoc,
    List.cons_append, List.nil_append, List.append_nil]

theorem reads_toJson (function : Function) :
    Reads sure Function.read (bytesOf function.toJson) function := by
  have symbol : Reads sure Reader.string (bytesOf (quote function.symbol)) function.symbol :=
    Reads.string function.symbol
  have code : Reads sure Reader.string (bytesOf (quote function.code)) function.code :=
    Reads.string function.code
  have object : Reads sure readObject (bytesOf function.toJson) function := by
    rw [bytesOf_toJson]
    refine (Reads.object Reads.string (symbol.once.map fun a => Members.mk a none)
      (.cons (code.once.map fun a => Members.mk _ a) (.nil _))).bind_pure rfl
  rw [bytesOf_toJson] at object ⊢
  exact Reads.of_object object

end Function

/-- A key with numbers that a module has room for: depths of 32 bits, and a word as feature
count. -/
structure Key.Fits (key : Key) : Prop where
  treeDepth_lt : key.geometry.treeDepth < 0x100000000
  functionDepth_lt : key.geometry.functionDepth < 0x100000000
  switchDepth_lt : key.geometry.switchDepth < 0x100000000
  featureCount_lt : key.featureCount < Word.limit

namespace Module

def header (m : Module) : List (String × List UInt8) :=
  [("tree_depth", bytesOf (toString m.key.geometry.treeDepth)),
    ("feature_count", bytesOf (toString m.key.featureCount)),
    ("function_depth", bytesOf (toString m.key.geometry.functionDepth)),
    ("switch_depth", bytesOf (toString m.key.geometry.switchDepth))]

def functionList (m : Module) : String × List UInt8 :=
  ("functions", enclose openBracket closeBracket (m.functions.map fun f => bytesOf f.toJson))

def written (m : Module) : List (String × List UInt8) :=
  m.header ++ [("tree", bytesOf m.tree.toJson), m.functionList]

theorem bytesOf_toJson (m : Module) :
    bytesOf m.toJson = enclose openBrace closeBrace (m.written.map member) := by
  have treeDepth : bytesOf "\x7b\"tree_depth\":" =
      openBrace :: bytesOf (quote "tree_depth") ++ [colonByte] := bytesOf_key rfl
  have featureCount : bytesOf ",\"feature_count\":" =
      commaByte :: bytesOf (quote "feature_count") ++ [colonByte] := bytesOf_key rfl
  have functionDepth : bytesOf ",\"function_depth\":" =
      commaByte :: bytesOf (quote "function_depth") ++ [colonByte] := bytesOf_key rfl
  have switchDepth : bytesOf ",\"switch_depth\":" =
      commaByte :: bytesOf (quote "switch_depth") ++ [colonByte] := bytesOf_key rfl
  have tree : bytesOf ",\"tree\":" = commaByte :: bytesOf (quote "tree") ++ [colonByte] :=
    bytesOf_key rfl
  have functions : bytesOf ",\"functions\":[" =
      commaByte :: bytesOf (quote "functions") ++ [colonByte, openBracket] := by
    have key : bytesOf ",\"functions\":" =
      commaByte :: bytesOf (quote "functions") ++ [colonByte] := bytesOf_key rfl
    have bracket : bytesOf "[" = [openBracket] := (bytesOf_eq _).trans rfl
    rw [show ",\"functions\":[" = ",\"functions\":" ++ "[" from rfl, bytesOf_append, key, bracket]
    simp
  have close : bytesOf "]\x7d" = [closeBracket, closeBrace] := (bytesOf_eq _).trans rfl
  have list : openBracket :: bytesOf (String.intercalate "," (m.functions.map Function.toJson)) ++
      [closeBracket] =
        enclose openBracket closeBracket (m.functions.map fun f => bytesOf f.toJson) := by
    rw [enclose_bytesOf, List.map_map]
    rfl
  unfold toJson
  simp only [written, header, functionList, ← list, enclose_cons, commas, member, bytesOf_append,
    treeDepth, featureCount, functionDepth, switchDepth, tree, functions, close, List.map_cons,
    List.map_nil, List.flatMap_cons, List.flatMap_nil, List.append_assoc, List.cons_append,
    List.nil_append, List.append_nil]

theorem gathers_header (m : Module) (fits : sure → m.key.Fits) :
    Gathers sure readMember {} m.header
      ⟨some m.key.geometry.treeDepth, some m.key.featureCount, some m.key.geometry.functionDepth,
        some m.key.geometry.switchDepth, none, none⟩ := by
  have treeDepth : Reads sure readDepth (bytesOf (toString m.key.geometry.treeDepth))
      m.key.geometry.treeDepth := Reads.natural (by decide) fun h => (fits h).treeDepth_lt
  have featureCount : Reads sure readCount (bytesOf (toString m.key.featureCount))
      m.key.featureCount := Reads.natural (Nat.le_refl _) fun h => (fits h).featureCount_lt
  have functionDepth : Reads sure readDepth (bytesOf (toString m.key.geometry.functionDepth))
      m.key.geometry.functionDepth := Reads.natural (by decide) fun h => (fits h).functionDepth_lt
  have switchDepth : Reads sure readDepth (bytesOf (toString m.key.geometry.switchDepth))
      m.key.geometry.switchDepth := Reads.natural (by decide) fun h => (fits h).switchDepth_lt
  refine .cons (treeDepth.once.map fun a => Members.mk a none none none none none) ?_
  refine .cons (featureCount.once.map fun a => Members.mk _ a none none none none) ?_
  refine .cons (functionDepth.once.map fun a => Members.mk _ _ a none none none) ?_
  exact .cons (switchDepth.once.map fun a => Members.mk _ _ _ a none none) (.nil _)

/-- A module is read back, if its biases are finite and its numbers fit their members. -/
theorem reads_toJson (m : Module)
    (finite : sure → ∀ node ∈ m.tree.nodes, node.bias.isFinite = true) (fits : sure → m.key.Fits) :
    Reads sure Module.read (bytesOf m.toJson) m := by
  have tree := m.tree.reads_toJson finite
  have functions : Reads sure (Reader.array Function.read)
      (enclose openBracket closeBracket (m.functions.map fun f => bytesOf f.toJson))
      m.functions.toArray := by
    refine Reads.array ?_ fun text mem => ?_
    · rw [List.forall₂_map_left_iff, List.forall₂_same]
      exact fun function _ => function.reads_toJson
    · obtain ⟨function, -, rfl⟩ := List.mem_map.1 mem
      exact ⟨_, function.bytesOf_toJson⟩
  have members : Gathers sure readMember {} m.written
      ⟨some m.key.geometry.treeDepth, some m.key.featureCount, some m.key.geometry.functionDepth,
        some m.key.geometry.switchDepth, some m.tree, some m.functions.toArray⟩ :=
    (m.gathers_header fits).append
      (.cons (tree.once.map fun a => Members.mk _ _ _ _ a none)
        (.cons (functions.once.map fun a => Members.mk _ _ _ _ _ a) (.nil _)))
  have object : Reads sure readObject (bytesOf m.toJson) m := by
    rw [bytesOf_toJson]
    obtain ⟨⟩ | ⟨first, others⟩ := members
    exact (Reads.object Reads.string first others).bind_pure rfl
  rw [bytesOf_toJson] at object ⊢
  exact Reads.of_object object

/-- A module is refused at its tree, if one of the biases is not finite. -/
theorem stops_toJson (m : Module) (infinite : ∃ node ∈ m.tree.nodes, node.bias.isFinite = false)
    (fits : m.key.Fits) : Stops Module.read (bytesOf m.toJson) := by
  have tree : Stops (readMember "tree"
      ⟨some m.key.geometry.treeDepth, some m.key.featureCount, some m.key.geometry.functionDepth,
        some m.key.geometry.switchDepth, none, none⟩) (bytesOf m.tree.toJson) :=
    (m.tree.stops_toJson infinite).once.bind _
  have object : Stops readObject (bytesOf m.toJson) := by
    rw [bytesOf_toJson]
    exact (Stops.object Reads.string (m.gathers_header fun _ => fits) tree [m.functionList]).bind _
  rw [bytesOf_toJson] at object ⊢
  exact Stops.of_object object

/-- Nothing but the module itself is read from its document. -/
theorem eq_of_ofJson {m read : Module} (h : ofJson (bytesOf m.toJson) = .ok read) : read = m := by
  have only : Yields False (Reader.document Module.read (bytesOf m.toJson)) m :=
    (m.reads_toJson False.elim False.elim).document
  rw [ofJson] at h
  cases result : Reader.document Module.read (bytesOf m.toJson) with
  | error problem => simp [result, Except.mapError] at h
  | ok found =>
    obtain rfl : found = read := by simpa [result, Except.mapError] using h
    exact only.eq_of_ok result

/-- A module is read back from its document, whatever characters its functions consist of, if all
its biases are finite. With a bias that is not finite the document is still written, but it is a
corrupt entry under every name. -/
theorem ofEntry_toJson (m : Module) (fits : m.key.Fits) (entry : String) :
    ((∀ node ∈ m.tree.nodes, node.bias.isFinite = true) →
      ofEntry entry (bytesOf m.toJson) = .ok m) ∧
    ((∃ node ∈ m.tree.nodes, node.bias.isFinite = false) →
      ofEntry entry (bytesOf m.toJson) = .error (.corrupt entry .unreadable)) := by
  constructor
  · intro finite
    have read : Reader.document Module.read (bytesOf m.toJson) = .ok m :=
      (m.reads_toJson (fun _ => finite) fun _ => fits).document.eq_ok trivial
    simp [ofEntry, ofJson, read, Except.mapError]
  · intro infinite
    have stop := (m.stops_toJson infinite fits).document
    simp [ofEntry, ofJson, stop, Except.mapError, Problem.toCorruption]

def largestKey : Key := ⟨⟨0xffffffff, 0, 0xffffffff⟩, 0xffffffffffffffff⟩

def sample (bias : Float32) : Module where
  key := largestKey
  tree :=
    { Tree.extremes with
      nodes := #[⟨0xffffffff, .ln, .greaterThan, bias⟩, ⟨0, .sqrt, .lessThan, 0⟩,
        ⟨1, .bypass, .lessThan, -1.5⟩]
      size_eq := rfl }
  functions := [⟨"\"\\/\n\r\t", "\x00\x01\x08\x0c\x1f\x7f é€😀"⟩, ⟨"", ""⟩]

theorem ofEntry_toJson_sample :
    ofEntry "a" (bytesOf (sample (Float32.ofBits 0x80000001)).toJson) =
      .ok (sample (Float32.ofBits 0x80000001)) ∧
    ofEntry "b" (bytesOf (sample (Float32.ofBits 0xff800000)).toJson) =
      .error (.corrupt "b" .unreadable) := by
  have fits : largestKey.Fits := ⟨by decide, by decide, by decide, by decide⟩
  exact ⟨(ofEntry_toJson _ fits "a").1 (by decide +kernel),
    (ofEntry_toJson _ fits "b").2 (by decide +kernel)⟩

end Module

end Arbor.Cache
