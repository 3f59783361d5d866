import Arbor.Yaml.Property
import Arbor.Yaml.Scalar

/-!
# YAML tokens

A document as a list of tokens. Indentation becomes tokens for the start and the end of blocks. A
key without a sign of its own is recognised by the colon behind it: until then the start of every
node that could be one is remembered, and the tokens for the key are inserted there.

## Main definitions

* `Token`: the tokens.
* `Tokens`: the tokens so far, and what decides about the next one.
* `Token.all`: the tokens of a text.
-/

namespace Arbor.Yaml

inductive Token where
  | directive (directive : Directive)
  | documentStart
  | documentEnd
  | blockSequence
  | blockMapping
  | blockEnd
  | openBracket
  | closeBracket
  | openBrace
  | closeBrace
  | dash
  | comma
  | key
  | value
  | alias (name : String)
  | anchor (name : String)
  | tag (tag : Tag)
  | scalar (style : Style) (text : String)
deriving DecidableEq, Repr, Inhabited

/-- The start of a node that may turn out to be a key. -/
structure Candidate where
  /-- The number of its first token. -/
  position : Nat
  /-- Whether it cannot be anything else. -/
  required : Bool
  start : Cursor

structure Tokens where
  cursor : Cursor
  tokens : Array Token := #[]
  /-- The column of the innermost block, and of those around it. -/
  indent : Int := -1
  outer : List Int := []
  /-- Whether a key may start here. -/
  keyAllowed : Bool := true
  /-- The candidate of the innermost brackets or braces, and those of the ones around them. -/
  candidate : Option Candidate := none
  enclosing : List (Option Candidate) := []

namespace Tokens

abbrev Step := StateT Tokens Option

/-- How far apart a key and its colon may be. -/
def keyLimit : Nat := 1024

def inFlow (s : Tokens) : Bool := !s.enclosing.isEmpty

def push (token : Token) : Step Unit := modify fun s => { s with tokens := s.tokens.push token }

def goTo (cursor : Cursor) : Step Unit := modify fun s => { s with cursor }

def allowKey (allowed : Bool) : Step Unit := modify fun s => { s with keyAllowed := allowed }

def sign (token : Token) (length : Nat) : Step Unit := do
  push token
  goTo ((← get).cursor.skip length)

/-- Drops the candidate, which must not be required. -/
def dropCandidate : Step Unit := do
  if (← get).candidate.any (·.required) then failure
  modify fun s => { s with candidate := none }

/-- Drops a candidate that is too far away or on another line. -/
def refresh (cursor : Cursor) (candidate : Option Candidate) : Option (Option Candidate) :=
  match candidate with
  | none => some none
  | some c =>
    if c.start.line < cursor.line || c.start.index + keyLimit < cursor.index then
      if c.required then none else some none
    else some (some c)

def refreshAll : Step Unit := do
  let s ← get
  let candidate ← refresh s.cursor s.candidate
  let enclosing ← s.enclosing.mapM fun candidate => liftM (refresh s.cursor candidate)
  set { s with candidate, enclosing }

/-- Remembers that the next token may start a key. In a block, a node in the column of the block has
to be one. -/
def remember : Step Unit := do
  let s ← get
  if s.keyAllowed then
    dropCandidate
    let required := !s.inFlow && s.indent == s.cursor.column
    modify fun t => { t with candidate := some ⟨s.tokens.size, required, s.cursor⟩ }

def openBlock (column position : Nat) (token : Token) : Step Unit := do
  let s ← get
  if !s.inFlow && s.indent < column then
    set { s with
      tokens := s.tokens.insertIdxIfInBounds position token
      indent := column
      outer := s.indent :: s.outer }

/-- The blocks around a column, and how many blocks end in front of it. -/
def blocksAround (column : Int) : (indent : Int) → (outer : List Int) → Int × List Int × Nat
  | indent, [] => (indent, [], 0)
  | indent, next :: outer =>
    if column < indent then
      let (indent, outer, count) := blocksAround column next outer
      (indent, outer, count + 1)
    else (indent, next :: outer, 0)

def closeBlocks (column : Int) : Step Unit := do
  let s ← get
  if !s.inFlow then
    let (indent, outer, count) := blocksAround column s.indent s.outer
    set { s with indent, outer, tokens := s.tokens ++ Array.replicate count Token.blockEnd }

def leaveDocument : Step Unit := do
  closeBlocks (-1)
  dropCandidate
  allowKey false

/-- The cursor behind blanks, comments and line breaks, and whether a key may start there.
Tabulators do not count as blanks where a key may start. -/
def toContent (inFlow : Bool) : (fuel : Nat) → Cursor → (keyAllowed : Bool) → Cursor × Bool
  | 0, cursor, keyAllowed => (cursor, keyAllowed)
  | fuel + 1, cursor, keyAllowed =>
    let cursor :=
      if cursor.index = 0 && cursor.head? == some '\ufeff' then cursor.skip 1 else cursor
    let cursor := cursor.skipWhile fun c => c == ' ' || (c == '\t' && (inFlow || !keyAllowed))
    let cursor := cursor.skipComment
    if cursor.head?.any isBreak then
      toContent inFlow fuel cursor.skipBreak (keyAllowed || !inFlow)
    else (cursor, keyAllowed)

def openFlow (token : Token) : Step Unit := do
  remember
  modify fun s => { s with candidate := none, enclosing := s.candidate :: s.enclosing }
  allowKey true
  sign token 1

def closeFlow (token : Token) : Step Unit := do
  dropCandidate
  modify fun s => match s.enclosing with
    | [] => s
    | candidate :: enclosing => { s with candidate, enclosing }
  allowKey false
  sign token 1

/-- Prepares for a sign that starts an entry of a block, and opens the block if necessary. -/
def startEntry (block : Token) : Step Unit := do
  let s ← get
  if !s.inFlow then
    if !s.keyAllowed then failure
    openBlock s.cursor.column s.tokens.size block
  dropCandidate

def dash : Step Unit := do
  startEntry .blockSequence
  allowKey true
  sign .dash 1

def questionMark : Step Unit := do
  startEntry .blockMapping
  allowKey (!(← get).inFlow)
  sign .key 1

/-- The colon of a value. The candidate, if there is one, is its key. -/
def colon : Step Unit := do
  let s ← get
  match s.candidate with
  | some c =>
    modify fun s => { s with
      tokens := s.tokens.insertIdxIfInBounds c.position .key
      candidate := none }
    openBlock c.start.column c.position .blockMapping
    allowKey false
  | none =>
    if !s.inFlow then
      if !s.keyAllowed then failure
      openBlock s.cursor.column s.tokens.size .blockMapping
    allowKey (!s.inFlow)
  sign .value 1

def starter {α : Type} (read : Option (α × Cursor)) (token : α → Token) : Step Unit := do
  remember
  allowKey false
  let (a, behind) ← read
  push (token a)
  goTo behind

def blockScalar (style : Style) : Step Unit := do
  dropCandidate
  allowKey true
  let s ← get
  let (text, behind) ← s.cursor.block (style == .folded) s.indent
  push (.scalar style text)
  goTo behind

/-- A plain scalar. If it ends with a line break, a key may follow. -/
def plainScalar : Step Unit := do
  remember
  let s ← get
  let (text, behind, broken) ← s.cursor.plain s.inFlow (s.indent + 1)
  push (.scalar .plain text)
  goTo behind
  allowKey broken

def isIndicator (c : Char) : Bool :=
  ['-', '?', ':', ',', '[', ']', '\x7b', '\x7d', '#', '&', '*', '!', '|', '>', '\'', '"', '%', '@',
    '`'].contains c

def startsPlain (inFlow : Bool) : List Char → Bool
  | [] => false
  | c :: rest =>
    !(isBlank c || isBreak c || isIndicator c) || (c == '-' && !rest.head?.any isBlank) ||
      (!inFlow && (c == '?' || c == ':') && !endsWord rest)

def token (c : Char) (rest : List Char) : Step Unit := do
  let s ← get
  let cursor := s.cursor
  let inFlow := s.inFlow
  let apart := inFlow || endsWord rest
  if cursor.column = 0 && c == '%' then
    leaveDocument
    let (directive, behind) ← cursor.directive
    push (.directive directive)
    goTo behind
  else if cursor.atMarker '-' then
    leaveDocument
    sign .documentStart 3
  else if cursor.atMarker '.' then
    leaveDocument
    sign .documentEnd 3
  else if c == '[' then openFlow .openBracket
  else if c == '\x7b' then openFlow .openBrace
  else if c == ']' then closeFlow .closeBracket
  else if c == '\x7d' then closeFlow .closeBrace
  else if c == ',' then
    dropCandidate
    allowKey true
    sign .comma 1
  else if c == '-' && endsWord rest then dash
  else if c == '?' && apart then questionMark
  else if c == ':' && apart then colon
  else if c == '*' then starter cursor.anchor .alias
  else if c == '&' then starter cursor.anchor .anchor
  else if c == '!' then starter (cursor.tag inFlow) .tag
  else if c == '|' && !inFlow then blockScalar .literal
  else if c == '>' && !inFlow then blockScalar .folded
  else if c == '\'' then starter (cursor.quoted '\'') (.scalar .single)
  else if c == '"' then starter (cursor.quoted '"') (.scalar .double)
  else if startsPlain inFlow cursor.rest then plainScalar
  else failure

/-- All further tokens. Every token takes at least one character. -/
def run : (fuel : Nat) → Step Unit
  | 0 => failure
  | fuel + 1 => do
    let s ← get
    let (cursor, keyAllowed) :=
      toContent s.inFlow (s.cursor.rest.length + 1) s.cursor s.keyAllowed
    set { s with cursor, keyAllowed }
    refreshAll
    closeBlocks cursor.column
    match cursor.rest with
    | [] => leaveDocument
    | c :: rest =>
      token c rest
      run fuel

end Tokens

def Token.all (text : String) : Option (List Token) := do
  let input := text.toList
  if !input.all isAllowed then none
  let ((), s) ← (Tokens.run (input.length + 1)).run { cursor := ⟨input, 0, 0, 0⟩ }
  return s.tokens.toList

end Arbor.Yaml
