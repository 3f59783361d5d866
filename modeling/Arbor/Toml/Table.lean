/-!
# TOML tables

The values of a TOML document and the rules by which headers and dotted keys build its tables.

A table is opened once: by its own header, or as part of a dotted key. A header may go through
tables that other headers or dotted keys made; a dotted key may not enter a table that has a header,
and stores its value in a table that dotted keys made. Nothing is added to an inline table later.

## Main definitions

* `Value`: the values of a document.
* `Entries.openTable`, `Entries.openElement`: the headers `[path]` and `[[path]]`.
* `Entries.assign`: a value under a dotted key.
-/

namespace Arbor.Toml

inductive Origin where
  /-- Its own header. -/
  | header
  /-- The header of a table inside of it. -/
  | implied
  /-- A dotted key. -/
  | dotted
deriving DecidableEq, Repr, Inhabited

/-- A value of a document. Of numbers with a fraction or an exponent and of dates and times only the
kind is kept. -/
inductive Value where
  | text (content : String)
  | integer (n : Int)
  | real
  | boolean (b : Bool)
  | moment
  | array (items : List Value)
  | inline (entries : List (String × Value))
  | table (origin : Origin) (entries : List (String × Value))
  /-- A list of tables with headers, the last one apart. -/
  | tables (earlier : List (List (String × Value))) (last : List (String × Value))
deriving Inhabited

/-- The entries of a table. Keys are different. -/
abbrev Entries := List (String × Value)

namespace Entries

def find? (entries : Entries) (key : String) : Option Value := entries.lookup key

def put : (entries : Entries) → (key : String) → (value : Value) → Entries
  | [], key, value => [(key, value)]
  | (k, v) :: rest, key, value =>
    if k = key then (key, value) :: rest else (k, v) :: put rest key value

/-- Changes the table on a path of headers. Tables that are missing on the path are made, and of a
list of tables the last one is meant. -/
def within (change : Entries → Option Entries) : (path : List String) → (entries : Entries) →
    Option Entries
  | [], entries => change entries
  | key :: path, entries =>
    match entries.find? key with
    | none => (within change path []).map fun inner => entries.put key (.table .implied inner)
    | some (.table origin inner) =>
      (within change path inner).map fun inner => entries.put key (.table origin inner)
    | some (.tables earlier last) =>
      (within change path last).map fun last => entries.put key (.tables earlier last)
    | some _ => none

/-- The header of a table. Only a table that was implied so far may exist already. -/
def openTable (path : List String) (key : String) : Entries → Option Entries :=
  within (fun entries =>
    match entries.find? key with
    | none => some (entries.put key (.table .header []))
    | some (.table .implied inner) => some (entries.put key (.table .header inner))
    | some _ => none) path

def openElement (path : List String) (key : String) : Entries → Option Entries :=
  within (fun entries =>
    match entries.find? key with
    | none => some (entries.put key (.tables [] []))
    | some (.tables earlier last) => some (entries.put key (.tables (last :: earlier) []))
    | some _ => none) path

/-- Stores a value under a new key, through the tables of a dotted path. The table that takes the
value belongs to dotted keys; the tables before it have no header of their own. -/
def assign (key : String) (value : Value) : (path : List String) → (entries : Entries) →
    Option Entries
  | [], entries =>
    match entries.find? key with
    | none => some (entries.put key value)
    | some _ => none
  | part :: path, entries =>
    match entries.find? part with
    | none => (assign key value path []).map fun inner => entries.put part (.table .dotted inner)
    | some (.table .dotted inner) =>
      (assign key value path inner).map fun inner => entries.put part (.table .dotted inner)
    | some (.table .implied inner) =>
      if path.isEmpty then none
      else (assign key value path inner).map fun inner => entries.put part (.table .implied inner)
    | some (.tables earlier last) =>
      if path.isEmpty then none
      else (assign key value path last).map fun last => entries.put part (.tables earlier last)
    | some _ => none

end Entries

end Arbor.Toml
