import Arbor.Yaml.Cursor

/-!
# YAML scalars

The three notations of scalars: plain, quoted, and as an indented block. Each is read at a cursor
and gives the text of the scalar and the cursor behind it.

## Main definitions

* `Cursor.plain`: a scalar without quotes.
* `Cursor.quoted`: a scalar in single or double quotes.
* `Cursor.block`: a literal or folded block.
-/

namespace Arbor.Yaml

inductive Style where
  | plain
  | single
  | double
  | literal
  | folded
deriving DecidableEq, Repr, Inhabited

/-! ## Plain scalars -/

/-- The characters with a meaning of their own inside of brackets and braces. -/
def isFlowSign (c : Char) : Bool := [',', '[', ']', '\x7b', '\x7d'].contains c

/-- The characters of a plain scalar up to a blank, a line end or the sign that ends it, and the
rest. Inside of brackets or braces a colon is refused in front of some signs. -/
def plainRun (inFlow : Bool) : List Char → Option (List Char × List Char)
  | [] => some ([], [])
  | c :: rest =>
    if isBlank c || isBreak c then some ([], c :: rest)
    else if inFlow && c == ':' && rest.head?.any (fun d => isFlowSign d || d == '?') then none
    else if (c == ':' && endsWord rest) || (inFlow && isFlowSign c) then some ([], c :: rest)
    else (plainRun inFlow rest).map fun (run, rest) => (c :: run, rest)

/-- The pieces of a plain scalar after `taken`, which is in reverse, and a gap. The result says
whether a line break follows the last piece. Every piece takes at least one character. -/
def plainPieces (inFlow : Bool) (indent : Int) : (fuel : Nat) → Cursor → Gap → (taken : List Char) →
    Option (List Char × Cursor × Bool)
  | 0, _, _, _ => none
  | fuel + 1, cursor, gap, taken =>
    if cursor.atBoundary || cursor.head? == some '#' then some (taken, cursor, gap.broken)
    else do
      let (run, _) ← plainRun inFlow cursor.rest
      let behind := cursor.skip run.length
      let (taken, gap) := if run.isEmpty then (taken, gap)
        else (run.reverse ++ gap.text.reverse ++ taken, {})
      if behind.rest.isEmpty || !endsWord behind.rest then return (taken, behind, gap.broken)
      let (gap, next) ← behind.gap indent gap
      if !inFlow && next.column < indent then return (taken, next, gap.broken)
      plainPieces inFlow indent fuel next gap taken

/-- A plain scalar whose further lines are indented by at least `indent`, and whether a line break
follows it. -/
def Cursor.plain (cursor : Cursor) (inFlow : Bool) (indent : Int) :
    Option (String × Cursor × Bool) :=
  (plainPieces inFlow indent (cursor.rest.length + 1) cursor {} []).map fun (taken, rest) =>
    (String.ofList taken.reverse, rest)

/-! ## Quoted scalars -/

/-- The character that an escape stands for, after the backslash, and the length of the escape. -/
def unescape? : List Char → Option (Char × Nat)
  | [] => none
  | kind :: rest =>
    let numbered (count : Nat) : Option (Char × Nat) := do
      let n ← hexNumber? count rest
      if n.isValidChar then some (Char.ofNat n, count + 1) else none
    match kind with
    | '0' => some ('\x00', 1)
    | 'a' => some ('\x07', 1)
    | 'b' => some ('\x08', 1)
    | 't' | '\t' => some ('\t', 1)
    | 'n' => some ('\n', 1)
    | 'v' => some ('\x0b', 1)
    | 'f' => some ('\x0c', 1)
    | 'r' => some ('\r', 1)
    | 'e' => some ('\x1b', 1)
    | ' ' => some (' ', 1)
    | '"' => some ('"', 1)
    | '/' => some ('/', 1)
    | '\\' => some ('\\', 1)
    | 'N' => some ('\u0085', 1)
    | '_' => some ('\u00a0', 1)
    | 'L' => some ('\u2028', 1)
    | 'P' => some ('\u2029', 1)
    | 'x' => numbered 2
    | 'u' => numbered 4
    | 'U' => numbered 8
    | _ => none

/-- The characters of a quoted scalar up to a blank, a line end or the closing quote. The last
component says whether they end with an escaped line break. -/
def quotedRun (quote : Char) (cursor : Cursor) (taken : List Char) :
    Option (List Char × Cursor × Bool) :=
  match h : cursor.rest with
  | [] => some (taken, cursor, false)
  | c :: rest =>
    if isBlank c || isBreak c then some (taken, cursor, false)
    else if c == quote then
      if quote == '\'' && rest.head? == some '\'' then
        have := Cursor.length_skip h Nat.two_pos
        quotedRun quote (cursor.skip 2) (c :: taken)
      else some (taken, cursor, false)
    else if quote == '"' && c == '\\' then
      if rest.head?.any isBreak then some (taken, (cursor.skip 1).skipBreak, true)
      else
        match unescape? rest with
        | none => none
        | some (meaning, length) =>
          have := Cursor.length_skip h (Nat.succ_pos length)
          quotedRun quote (cursor.skip (length + 1)) (meaning :: taken)
    else
      have := Cursor.length_skip h Nat.one_pos
      quotedRun quote (cursor.skip 1) (c :: taken)
termination_by cursor.rest.length

def quotedPieces (quote : Char) : (fuel : Nat) → Cursor → (taken : List Char) →
    Option (List Char × Cursor)
  | 0, _, _ => none
  | fuel + 1, cursor, taken => do
    if cursor.atBoundary || cursor.rest.isEmpty then none
    else
      let (taken, behind, escaped) ← quotedRun quote cursor taken
      if behind.head? = some quote then return (taken, behind.skip 1)
      let (gap, next) ← behind.gap 0 { broken := escaped }
      quotedPieces quote fuel next (gap.text.reverse ++ taken)

def Cursor.quoted (cursor : Cursor) (quote : Char) : Option (String × Cursor) :=
  (quotedPieces quote (cursor.rest.length + 1) (cursor.skip 1) []).map fun (taken, rest) =>
    (String.ofList taken.reverse, rest)

/-! ## Blocks -/

inductive Chomping where
  /-- All are dropped. -/
  | strip
  /-- The first one is kept. -/
  | clip
  /-- All are kept. -/
  | keep
deriving DecidableEq, Repr, Inhabited

def chomping? : Option Char → Option Chomping
  | some '+' => some .keep
  | some '-' => some .strip
  | _ => none

def indentation? : Option Char → Option Nat
  | some c => if c.isDigit then some (c.toNat - '0'.toNat) else none
  | none => none

/-- The indicators of a block, in either order. An indentation of zero is refused. -/
def Cursor.blockHeader (cursor : Cursor) : Option (Chomping × Option Nat × Cursor) := do
  let (chomping, indentation, rest) :=
    match chomping? cursor.head? with
    | some chomping =>
      match indentation? (cursor.skip 1).head? with
      | some n => (chomping, some n, cursor.skip 2)
      | none => (chomping, none, cursor.skip 1)
    | none =>
      match indentation? cursor.head? with
      | some n =>
        match chomping? (cursor.skip 1).head? with
        | some chomping => (chomping, some n, cursor.skip 2)
        | none => (.clip, some n, cursor.skip 1)
      | none => (.clip, none, cursor)
  if indentation = some 0 then none
  let rest := (rest.skipWhile isBlank).skipComment
  if endsLine rest.rest then return (chomping, indentation, rest.skipBreak) else none

/-- The empty lines before a line of a block: their line breaks in reverse, the column of the
deepest one, and the cursor in the next line, behind its indentation. The indentation is at most
`indent`, and has no bound if that is zero. -/
def blockBreaks (indent : Nat) : (fuel : Nat) → Cursor → (deepest : Nat) → (breaks : List Char) →
    Option (List Char × Nat × Cursor)
  | 0, _, _, _ => none
  | fuel + 1, cursor, deepest, breaks =>
    let spaces := (cursor.rest.takeWhile (· == ' ')).length
    let cursor := cursor.skip (if indent = 0 then spaces else min spaces (indent - cursor.column))
    let deepest := max deepest cursor.column
    match cursor.head? with
    | none => some (breaks, deepest, cursor)
    | some c =>
      if c == '\t' && (indent = 0 || cursor.column < indent) then none
      else if isBreak c then
        blockBreaks indent fuel cursor.skipBreak deepest (breakText c :: breaks)
      else some (breaks, deepest, cursor)

structure Block where
  /-- The text in reverse, without the line breaks at its end. -/
  taken : List Char := []
  /-- The line break of the last line. -/
  first : List Char := []
  /-- The line breaks of empty lines behind it, in reverse. -/
  more : List Char := []
  /-- Whether the last line starts with a blank. -/
  spaced : Bool := false

/-- The lines of a block. In a folded block the line break between two lines becomes a blank, or is
dropped in front of empty lines, unless one of the two lines starts with a blank. -/
def blockLines (folded : Bool) (indent : Nat) : (fuel : Nat) → Cursor → Block →
    Option (Block × Cursor)
  | 0, _, _ => none
  | fuel + 1, cursor, block => do
    if cursor.column ≠ indent || cursor.rest.isEmpty then return (block, cursor)
    let spaced := cursor.head?.any isBlank
    let joint :=
      if folded && block.first.head? == some '\n' && !block.spaced && !spaced then
        if block.more.isEmpty then [' '] else block.more
      else block.more ++ block.first
    let line := cursor.rest.takeWhile (!isBreak ·)
    let behind := cursor.skip line.length
    let first := behind.head?.toList.map breakText
    let (more, _, next) ← blockBreaks indent (behind.rest.length + 1) behind.skipBreak 0 []
    blockLines folded indent fuel next ⟨line.reverse ++ joint ++ block.taken, first, more, spaced⟩

/-- A block in a structure that is indented by `parent`. -/
def Cursor.block (cursor : Cursor) (folded : Bool) (parent : Int) : Option (String × Cursor) := do
  let (chomping, indentation, start) ← (cursor.skip 1).blockHeader
  let fuel := cursor.rest.length + 1
  let given := match indentation with
    | some n => (max parent 0).toNat + n
    | none => 0
  let (more, deepest, first) ← blockBreaks given fuel start 0 []
  let indent := if given = 0 then max (max deepest (parent + 1).toNat) 1 else given
  let (block, behind) ← blockLines folded indent fuel first { more }
  let tail := match chomping with
    | .strip => []
    | .clip => block.first
    | .keep => block.more ++ block.first
  return (String.ofList (tail ++ block.taken).reverse, behind)

end Arbor.Yaml
