import Arbor.Yaml.Token

/-!
# YAML documents

The nodes of a text with one document. Anchors are numbered, and an alias is the number of its
anchor; the node behind a number is the last one that got it. A name that is used for an anchor
again takes the next free number without making it used, so the number goes to the next new name as
well.

## Main definitions

* `Node`: scalars, sequences, mappings and aliases.
* `Document.parse`: the document of a text.
* `Document.scalar?`: the scalar that a node is or stands for.
-/

namespace Arbor.Yaml

structure Scalar where
  style : Style := .plain
  tag : Option (List UInt8) := none
  text : String := ""
deriving DecidableEq, Repr, Inhabited

inductive Node where
  | scalar (scalar : Scalar)
  | sequence (items : List Node)
  | mapping (entries : List (Node × Node))
  | alias (number : Nat)
deriving Inhabited

def Node.empty : Node := .scalar {}

structure Document where
  /-- The node, unless there is none. -/
  root : Option Node
  /-- The scalars with anchors, the last ones first. Other nodes with anchors are `none`. -/
  anchored : List (Nat × Option Scalar)

/-- What is left of the tokens, and what is known about tags and anchors. -/
structure Nodes where
  tokens : List Token
  handles : List (String × List UInt8) := []
  anchors : List (String × Nat) := []
  anchored : List (Nat × Option Scalar) := []

namespace Nodes

abbrev Step := StateT Nodes Option

def peek : Step (Option Token) := do
  return (← get).tokens.head?

def advance : Step Unit := modify fun s => { s with tokens := s.tokens.tail }

def nextIn (tokens : List Token) : Step Bool := do
  return (← peek).any tokens.contains

def accept (token : Token) : Step Bool := do
  if (← peek) = some token then
    advance
    return true
  else return false

def anchor? : Step (Option String) := do
  match ← peek with
  | some (.anchor name) =>
    advance
    return some name
  | _ => return none

def tag? : Step (Option (List UInt8)) := do
  match ← peek with
  | some (.tag tag) =>
    advance
    if tag.handle.isEmpty then return some tag.rest
    let meaning ← (← get).handles.lookup tag.handle
    return some (meaning ++ tag.rest)
  | _ => return none

def properties : Step (Option String × Option (List UInt8)) := do
  match ← anchor? with
  | some name => return (some name, ← tag?)
  | none =>
    let tag ← tag?
    return (← anchor?, tag)

def register (name : Option String) (scalar : Option Scalar) : Step Unit := do
  match name with
  | none => return
  | some name =>
    modify fun s =>
      let number := s.anchors.length
      { s with
        anchors := (name, number) :: s.anchors.filter (·.1 ≠ name)
        anchored := (number, scalar) :: s.anchored }

mutual

/-- A node. Blocks are possible only if the context is one; a sequence without indentation of its
own only as a key or value of one. -/
def node : (fuel : Nat) → (inBlock indentless : Bool) → Step Node
  | 0, _, _ => failure
  | fuel + 1, inBlock, indentless => do
    if let some (.alias name) ← peek then
      advance
      return .alias (← (← get).anchors.lookup name)
    let (name, tag) ← properties
    let scalar (scalar : Scalar) : Step Node := do
      register name (some scalar)
      return .scalar scalar
    match ← peek with
    | some (.scalar style text) =>
      advance
      scalar ⟨style, tag, text⟩
    | some .openBracket =>
      advance
      register name none
      flowItems fuel true []
    | some .openBrace =>
      advance
      register name none
      flowEntries fuel true []
    | next =>
      if indentless && next == some .dash then
        register name none
        indentlessItems fuel []
      else if inBlock && next == some .blockSequence then
        advance
        register name none
        blockItems fuel []
      else if inBlock && next == some .blockMapping then
        advance
        register name none
        blockEntries fuel []
      else if name.isSome || tag.isSome then scalar { tag }
      else failure

def nodeBefore : (fuel : Nat) → (tokens : List Token) → (inBlock indentless : Bool) → Step Node
  | 0, _, _, _ => failure
  | fuel + 1, tokens, inBlock, indentless => do
    if ← nextIn tokens then return .empty else node fuel inBlock indentless

def blockItems : (fuel : Nat) → (taken : List Node) → Step Node
  | 0, _ => failure
  | fuel + 1, taken => do
    if ← accept .dash then
      blockItems fuel ((← nodeBefore fuel [.dash, .blockEnd] true false) :: taken)
    else if ← accept .blockEnd then return .sequence taken.reverse
    else failure

def indentlessItems : (fuel : Nat) → (taken : List Node) → Step Node
  | 0, _ => failure
  | fuel + 1, taken => do
    if ← accept .dash then
      indentlessItems fuel
        ((← nodeBefore fuel [.dash, .key, .value, .blockEnd] true false) :: taken)
    else return .sequence taken.reverse

def blockEntries : (fuel : Nat) → (taken : List (Node × Node)) → Step Node
  | 0, _ => failure
  | fuel + 1, taken => do
    let ends : List Token := [.key, .value, .blockEnd]
    if ← accept .key then
      let key ← nodeBefore fuel ends true true
      let value ← if ← accept .value then nodeBefore fuel ends true true else pure .empty
      blockEntries fuel ((key, value) :: taken)
    else if ← accept .blockEnd then return .mapping taken.reverse
    else failure

/-- The items between brackets. An item may be a single entry of a mapping. If its key is left out,
the token behind it is lost. -/
def flowItems : (fuel : Nat) → (first : Bool) → (taken : List Node) → Step Node
  | 0, _, _ => failure
  | fuel + 1, first, taken => do
    if ← accept .closeBracket then return .sequence taken.reverse
    if !first then
      if !(← accept .comma) then failure
    if ← accept .closeBracket then return .sequence taken.reverse
    if ← accept .key then
      let key ← if ← nextIn [.value, .comma, .closeBracket] then do
          advance
          pure .empty
        else node fuel false false
      let value ← if ← accept .value then nodeBefore fuel [.comma, .closeBracket] false false
        else pure .empty
      flowItems fuel false (.mapping [(key, value)] :: taken)
    else flowItems fuel false ((← node fuel false false) :: taken)

def flowEntries : (fuel : Nat) → (first : Bool) → (taken : List (Node × Node)) → Step Node
  | 0, _, _ => failure
  | fuel + 1, first, taken => do
    if ← accept .closeBrace then return .mapping taken.reverse
    if !first then
      if !(← accept .comma) then failure
    if ← accept .closeBrace then return .mapping taken.reverse
    if ← accept .key then
      let key ← nodeBefore fuel [.value, .comma, .closeBrace] false false
      let value ← if ← accept .value then nodeBefore fuel [.comma, .closeBrace] false false
        else pure .empty
      flowEntries fuel false ((key, value) :: taken)
    else flowEntries fuel false ((← node fuel false false, .empty) :: taken)

end

def octets (text : String) : List UInt8 := text.toUTF8.toList

def commonHandles : List (String × List UInt8) :=
  [("!", octets "!"), ("!!", octets "tag:yaml.org,2002:")]

/-- The directives of a document. A version is given at most once and is 1.1 or 1.2; every handle is
given at most once. -/
def directives : (tokens : List Token) → (versioned : Bool) → Step Unit
  | .directive (.version major minor) :: tokens, versioned => do
    if versioned || major ≠ 1 || (minor ≠ 1 && minor ≠ 2) then failure
    advance
    directives tokens true
  | .directive (.handle name meaning) :: tokens, versioned => do
    if ((← get).handles.lookup name).isSome then failure
    modify fun s => { s with handles := s.handles ++ [(name, meaning)] }
    advance
    directives tokens versioned
  | _, _ => return

/-- A node of a document. A node with `n` tokens nests less than `2 * n + 2` steps. -/
def wholeNode : Step Node := do
  node (2 * (← get).tokens.length + 2) true false

def atBoundary : Step Bool := do
  match ← peek with
  | none | some (.directive _) | some .documentStart | some .documentEnd => return true
  | some _ => return false

def document : Step (Option Node) := do
  let tokens := (← get).tokens
  directives tokens false
  modify fun s => { s with handles := s.handles ++ commonHandles }
  let root ←
    match tokens with
    | [] => pure none
    | .directive _ :: _ | .documentStart :: _ =>
      if !(← accept .documentStart) then failure
      if ← atBoundary then pure (some .empty) else some <$> wholeNode
    | _ => some <$> wholeNode
  if (← get).tokens.all (· == .documentEnd) then return root else failure

end Nodes

namespace Document

def parse (text : String) : Option Document := do
  let tokens ← Token.all text
  let (root, s) ← Nodes.document.run { tokens }
  return ⟨root, s.anchored⟩

def scalar? (document : Document) : Node → Option Scalar
  | .scalar scalar => some scalar
  | .alias number => (document.anchored.lookup number).join
  | _ => none

end Document

end Arbor.Yaml
