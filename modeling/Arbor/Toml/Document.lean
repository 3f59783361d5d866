import Arbor.Toml.Number

/-!
# TOML documents

Values with their nesting, and documents line by line.

## Main definitions

* `Reader.value`: a value of bounded nesting.
* `parse`: the entries of a document.
-/

namespace Arbor.Toml

namespace Reader

def word (letters : List Char) (value : Value) : Reader Value := do
  if letters.isPrefixOf (← get) then
    modify (·.drop letters.length)
    return value
  else failure

def scalar : Reader Value := do
  match ← peek with
  | some '"' => .text <$> text '"'
  | some '\'' => .text <$> text '\''
  | some 't' => word ['t', 'r', 'u', 'e'] (.boolean true)
  | some 'f' => word ['f', 'a', 'l', 's', 'e'] (.boolean false)
  | _ => numeric?

/-- The items of a list, up to the closing bracket. A comma may follow the last one. -/
def items (item : Reader Value) : (fuel : Nat) → (taken : List Value) → Reader Value
  | 0, _ => failure
  | fuel + 1, taken => do
    gap
    if (← peek) = some ']' then
      advance
      return .array taken.reverse
    let value ← item
    gap
    match ← peek with
    | some ',' =>
      advance
      items item fuel (value :: taken)
    | some ']' =>
      advance
      return .array (value :: taken).reverse
    | _ => failure

def pair (value : Reader Value) : Reader ((List String × String) × Value) := do
  let key ← key
  symbol '='
  blanks
  return (key, ← value)

def members (value : Reader Value) : (fuel : Nat) → (taken : Entries) → Reader Value
  | 0, _ => failure
  | fuel + 1, taken => do
    let ((path, key), value') ← pair value
    blanks
    let taken ← Entries.assign key value' path taken
    match ← peek with
    | some ',' =>
      advance
      members value fuel taken
    | some '\x7d' =>
      advance
      return .inline taken
    | _ => failure

def inlineTable (value : Reader Value) : Reader Value := do
  blanks
  if (← peek) = some '\x7d' then
    advance
    return .inline []
  members value ((← get).length + 1) []

/-- A value with lists and inline tables of at most `levels` levels. -/
def value : (levels : Nat) → Reader Value
  | 0 => scalar
  | levels + 1 => do
    match ← peek with
    | some '[' =>
      advance
      items (value levels) ((← get).length + 1) []
    | some '\x7b' =>
      advance
      inlineTable (value levels)
    | _ => scalar

/-- A document so far: all entries, and the path of the table that takes the next ones. -/
structure Page where
  entries : Entries := []
  path : List String := []

def header (page : Page) : Reader Page := do
  symbol '['
  if (← peek) = some '[' then
    advance
    let (path, key) ← key
    symbol ']'
    symbol ']'
    return ⟨← Entries.openElement path key page.entries, path ++ [key]⟩
  else
    let (path, key) ← key
    symbol ']'
    return ⟨← Entries.openTable path key page.entries, path ++ [key]⟩

/-- The lines of a document. Every line but the last one takes at least its line end. -/
def pages : (fuel : Nat) → (page : Page) → Reader Entries
  | 0, _ => failure
  | fuel + 1, page => do
    blanks
    match ← peek with
    | none => return page.entries
    | some '\n' | some '\r' | some '#' =>
      lineRest
      pages fuel page
    | some '[' =>
      let page ← header page
      lineRest
      pages fuel page
    | some _ =>
      let ((path, key), value) ← pair (value (depthLimit - 1))
      lineRest
      let entries ← Entries.within (Entries.assign key value path) page.path page.entries
      pages fuel { page with entries }

end Reader

/-- The entries of a document, if it is one. A byte order mark in front is skipped. -/
def parse (document : String) : Option Entries :=
  let input := match document.toList with
    | '\ufeff' :: rest => rest
    | input => input
  ((Reader.pages (input.length + 1) {}).run input).map (·.1)

end Arbor.Toml
