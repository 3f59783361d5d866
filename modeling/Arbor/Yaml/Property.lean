import Arbor.Yaml.Cursor

/-!
# Anchors, tags and directives

The parts of a YAML text that describe nodes and documents instead of being content. A tag is a list
of octets, because its escapes are.
-/

namespace Arbor.Yaml

/-- A tag: the handle of a directive, and what follows it. The handle is empty if the tag is written
in full. -/
structure Tag where
  handle : String
  rest : List UInt8
deriving DecidableEq, Repr, Inhabited

inductive Directive where
  | version (major minor : Nat)
  | handle (name : String) (meaning : List UInt8)
deriving DecidableEq, Repr, Inhabited

namespace Cursor

variable (cursor : Cursor)

def isAnchorEnd (c : Char) : Bool :=
  isBlank c || isBreak c || ['?', ':', ',', ']', '\x7d', '%', '@', '`'].contains c

def anchor : Option (String × Cursor) :=
  let name := (cursor.skip 1).rest.takeWhile isWord
  let behind := cursor.skip (name.length + 1)
  if name.isEmpty || !behind.head?.all isAnchorEnd then none
  else some (String.ofList name, behind)

/-- The handle of a tag, with an exclamation mark at its end if it has one. -/
def tagHandle : Option (String × Cursor) :=
  if cursor.head? = some '!' then
    let name := (cursor.skip 1).rest.takeWhile isWord
    let behind := cursor.skip (name.length + 1)
    if behind.head? = some '!' then
      some (String.ofList ('!' :: name ++ ['!']), behind.skip 1)
    else some (String.ofList ('!' :: name), behind)
  else none

end Cursor

/-- The characters of tags. A comma and brackets are among them only if the end of the tag is clear
without them. -/
def isTagChar (enclosed : Bool) (c : Char) : Bool :=
  isWord c
    || [';', '/', '?', ':', '@', '&', '=', '+', '$', '.', '!', '~', '*', '\'', '(', ')'].contains c
    || (enclosed && [',', '[', ']'].contains c)

/-- How many octets belong to a character, by its first octet. -/
def octetCount? (first : Nat) : Option Nat :=
  if first < 0x80 then some 1
  else if 0xc0 ≤ first && first < 0xe0 then some 2
  else if 0xe0 ≤ first && first < 0xf0 then some 3
  else if 0xf0 ≤ first && first < 0xf8 then some 4
  else none

/-- The octets of a tag up to a character that does not belong to it, and how many characters these
are. The escapes of a character follow each other; `pending` of them are missing. -/
def tagOctets (enclosed : Bool) : (pending : Nat) → List Char → Option (List UInt8 × Nat)
  | pending, '%' :: text =>
    match text with
    | a :: b :: rest => do
      let octet := 16 * (← hexDigit? a) + (← hexDigit? b)
      let left ← if pending = 0 then (octetCount? octet).map (· - 1)
        else if 0x80 ≤ octet && octet < 0xc0 then some (pending - 1)
        else none
      let (octets, length) ← tagOctets enclosed left rest
      return (octet.toUInt8 :: octets, length + 3)
    | _ => none
  | 0, c :: rest =>
    if isTagChar enclosed c then
      (tagOctets enclosed 0 rest).map fun (octets, length) =>
        (c.toNat.toUInt8 :: octets, length + 1)
    else some ([], 0)
  | 0, [] => some ([], 0)
  | _ + 1, _ => none

namespace Cursor

variable (cursor : Cursor)

def tagRest (enclosed : Bool) : Option (List UInt8 × Cursor) :=
  (tagOctets enclosed 0 cursor.rest).map fun (octets, length) => (octets, cursor.skip length)

def endsTag (inFlow : Bool) : Bool := endsWord cursor.rest || (inFlow && cursor.head? == some ',')

/-- A tag: in full between angle brackets, behind a handle with an exclamation mark at its end, or
behind a single exclamation mark. -/
def tag (inFlow : Bool) : Option (Tag × Cursor) := do
  let (tag, behind) ←
    if (cursor.skip 1).head? = some '<' then do
      let (octets, behind) ← (cursor.skip 2).tagRest true
      if octets.isEmpty || behind.head? ≠ some '>' then none
      else some (Tag.mk "" octets, behind.skip 1)
    else do
      let (handle, behind) ← cursor.tagHandle
      let (octets, behind) ← behind.tagRest false
      if handle ≠ "!" && handle.endsWith "!" then
        if octets.isEmpty then none else some (Tag.mk handle octets, behind)
      else
        let octets := handle.toUTF8.toList.drop 1 ++ octets
        some (if octets.isEmpty then Tag.mk "" "!".toUTF8.toList else Tag.mk "!" octets, behind)
  if behind.endsTag inFlow then return (tag, behind) else none

def versionNumber : Option (Nat × Cursor) :=
  let digits := cursor.rest.takeWhile Char.isDigit
  if digits.isEmpty || 9 < digits.length then none
  else some (digits.foldl (fun n c => n * 10 + (c.toNat - '0'.toNat)) 0, cursor.skip digits.length)

def version : Option (Directive × Cursor) := do
  let (major, behind) ← cursor.versionNumber
  if behind.head? ≠ some '.' then none
  let (minor, behind) ← (behind.skip 1).versionNumber
  return (.version major minor, behind)

def handleMeaning : Option (Directive × Cursor) := do
  let (handle, behind) ← cursor.tagHandle
  if !handle.endsWith "!" || !behind.head?.any isBlank then none
  let (meaning, behind) ← (behind.skipWhile isBlank).tagRest true
  if meaning.isEmpty || !endsWord behind.rest then none
  return (.handle handle meaning, behind)

def directive : Option (Directive × Cursor) := do
  let name := (cursor.skip 1).rest.takeWhile isWord
  let behind := cursor.skip (name.length + 1)
  if !endsWord behind.rest then none
  let argument := behind.skipWhile isBlank
  let (directive, behind) ←
    match String.ofList name with
    | "YAML" => argument.version
    | "TAG" => argument.handleMeaning
    | _ => none
  let behind := (behind.skipWhile isBlank).skipComment
  if endsLine behind.rest then return (directive, behind.skipBreak) else none

end Cursor

end Arbor.Yaml
