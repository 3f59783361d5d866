/-!
# Positions in a YAML text

Character classes, a cursor that knows its line and column, and the folding of the blanks and line
breaks between two pieces of a scalar.

## Main definitions

* `Cursor`: the rest of a text and where it starts.
* `Gap`: blanks and line breaks inside of a scalar, and the text that they stand for.
-/

namespace Arbor.Yaml

def isBlank (c : Char) : Bool := c == ' ' || c == '\t'

def isBreak (c : Char) : Bool :=
  c == '\n' || c == '\r' || c == '\u0085' || c == '\u2028' || c == '\u2029'

/-- The characters of names: of anchors, directives and tag handles. -/
def isWord (c : Char) : Bool := c.isAlphanum || c == '_' || c == '-'

def isAllowed (c : Char) : Bool :=
  let n := c.toNat
  n = 0x09 || n = 0x0a || n = 0x0d || (0x20 ≤ n && n ≤ 0x7e) || n = 0x85 ||
    (0xa0 ≤ n && n ≤ 0xfffd) || 0x10000 ≤ n

def breakText (c : Char) : Char := if c == '\u2028' || c == '\u2029' then c else '\n'

def endsWord : List Char → Bool
  | [] => true
  | c :: _ => isBlank c || isBreak c

def endsLine : List Char → Bool
  | [] => true
  | c :: _ => isBreak c

def hexDigit? (c : Char) : Option Nat :=
  if c.isDigit then some (c.toNat - '0'.toNat)
  else if 'a' ≤ c ∧ c ≤ 'f' then some (c.toNat - 'a'.toNat + 10)
  else if 'A' ≤ c ∧ c ≤ 'F' then some (c.toNat - 'A'.toNat + 10)
  else none

def hexNumber? (count : Nat) (text : List Char) : Option Nat := do
  let digits ← (text.take count).mapM hexDigit?
  if digits.length = count then some (digits.foldl (fun n digit => n * 16 + digit) 0) else none

structure Cursor where
  rest : List Char
  index : Nat := 0
  line : Nat := 0
  column : Nat := 0
deriving DecidableEq, Repr, Inhabited

namespace Cursor

variable (cursor : Cursor)

def head? : Option Char := cursor.rest.head?

def skip (count : Nat) : Cursor :=
  { cursor with
    rest := cursor.rest.drop count
    index := cursor.index + count
    column := cursor.column + count }

/-- The cursor behind the characters with a property, none of which ends the line. -/
def skipWhile (p : Char → Bool) : Cursor := cursor.skip (cursor.rest.takeWhile p).length

def skipBreak : Cursor :=
  match cursor.rest with
  | '\r' :: '\n' :: rest => ⟨rest, cursor.index + 2, cursor.line + 1, 0⟩
  | c :: rest => if isBreak c then ⟨rest, cursor.index + 1, cursor.line + 1, 0⟩ else cursor
  | [] => cursor

def skipComment : Cursor :=
  if cursor.head? = some '#' then cursor.skipWhile (!isBreak ·) else cursor

def atMarker (c : Char) : Bool :=
  cursor.column = 0 && cursor.rest.take 3 = [c, c, c] && endsWord (cursor.rest.drop 3)

def atBoundary : Bool := cursor.atMarker '-' || cursor.atMarker '.'

variable {cursor}

theorem length_skip {count : Nat} {c : Char} {rest : List Char} (h : cursor.rest = c :: rest)
    (positive : 0 < count) : (cursor.skip count).rest.length < cursor.rest.length := by
  simp only [skip, h, List.length_drop, List.length_cons]
  omega

theorem length_skipBreak {c : Char} {rest : List Char} (h : cursor.rest = c :: rest)
    (ends : isBreak c = true) : cursor.skipBreak.rest.length < cursor.rest.length := by
  unfold skipBreak
  split
  · next rest' text => simp only [text, List.length_cons]; omega
  · next d rest' _ text =>
    obtain ⟨rfl, rfl⟩ : d = c ∧ rest' = rest := by simpa [h] using text.symm
    simp [ends, text]
  · next text => simp [h] at text

end Cursor

structure Gap where
  /-- Whether there is a line break. -/
  broken : Bool := false
  /-- The blanks before the first line break, in reverse. -/
  blanks : List Char := []
  /-- The first line break. -/
  first : List Char := []
  /-- The other line breaks, in reverse. -/
  more : List Char := []
deriving DecidableEq, Repr, Inhabited

/-- What a gap stands for. A single line break becomes a blank, and of several ones the first is
dropped; blanks around line breaks mean nothing. -/
def Gap.text (gap : Gap) : List Char :=
  if gap.broken then
    if gap.first.head? = some '\n' then
      if gap.more.isEmpty then [' '] else gap.more.reverse
    else gap.first ++ gap.more.reverse
  else gap.blanks.reverse

/-- Extends a gap by the blanks and line breaks at the cursor. On a new line, tabulators left of
`indent` are refused. -/
def Cursor.gap (indent : Int) (cursor : Cursor) (gap : Gap) : Option (Gap × Cursor) :=
  match h : cursor.rest with
  | [] => some (gap, cursor)
  | c :: _ =>
    if isBlank c then
      if gap.broken && c == '\t' && cursor.column < indent then none
      else
        have := length_skip h Nat.one_pos
        (cursor.skip 1).gap indent
          (if gap.broken then gap else { gap with blanks := c :: gap.blanks })
    else if ends : isBreak c then
      have := length_skipBreak h ends
      cursor.skipBreak.gap indent
        (if gap.broken then { gap with more := breakText c :: gap.more }
        else { gap with broken := true, blanks := [], first := [breakText c] })
    else some (gap, cursor)
termination_by cursor.rest.length

end Arbor.Yaml
