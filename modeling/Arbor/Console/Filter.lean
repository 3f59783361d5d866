import Arbor.Console.Record
import Arbor.Text.Space

/-!
# Log filters

Which records reach the console. A filter is a list of directives, separated by commas: a level, a
target, a target with a level, or a span in brackets with or without fields. Of the directives whose
target is the start of a record's target the most specific one decides. Directives that name a span
or the value of a field concern only what happens inside of a span; there are no spans here, so they
never apply.

## Main definitions

* `Directive.parse`: a directive of a filter.
* `Filter.parse`: a filter.
* `Filter.enables`: whether a record passes.
-/

namespace Arbor.Console

/-- The verbosity that a text names: the rank of the last level that passes, zero for none. -/
def verbosity? (text : String) : Option Nat :=
  let digits := match text.toList with
    | '+' :: digits => digits
    | digits => digits
  if !digits.isEmpty && digits.all Char.isDigit then
    let n := digits.foldl (fun n c => n * 10 + (c.toNat - '0'.toNat)) 0
    if n ≤ Level.trace.rank then some n else none
  else
    match text.toLower with
    | "off" => some 0
    | "error" => some Level.error.rank
    | "warn" => some Level.warn.rank
    | "info" => some Level.info.rank
    | "debug" => some Level.debug.rank
    | "trace" => some Level.trace.rank
    | _ => none

structure FieldTest where
  name : String
  /-- Whether the field has to have a given value. -/
  valued : Bool
deriving DecidableEq, Repr, Inhabited

structure Directive where
  verbosity : Nat := Level.trace.rank
  target : Option String := none
  span : Option String := none
  field : Option FieldTest := none
deriving DecidableEq, Repr, Inhabited

namespace Directive

/-- Whether a directive may start with a character. All letters beyond ASCII are taken for such. -/
def startsWith (c : Char) : Bool :=
  c.isAlphanum || c == '-' || c == ':' || c == '_' || 0x7f < c.toNat

def fieldTest (text : String) : FieldTest :=
  match text.splitOn "=" with
  | name :: _ :: _ => ⟨name, true⟩
  | _ => ⟨text, false⟩

/-- Completes a directive whose other parts end at `position` of the trimmed text `marks`. A level
may follow an equals sign; without one all levels pass. -/
def close (marks text : List Char) (position : Nat) (directive : Directive) : Option Directive :=
  match marks[position]? with
  | none => some directive
  | some '=' =>
    match text.drop (position + 1) with
    | [] => some directive
    | level => (verbosity? (String.ofList level)).map ({ directive with verbosity := · })
  | some _ => none

def openSpan (marks text : List Char) (position : Nat) (target : Option String) :
    Option Directive :=
  let slice (first last : Nat) : String := String.ofList ((text.take last).drop first)
  match (marks.drop position).findIdx? fun c => c == ']' || c == '\x7b' with
  | none => none
  | some offset =>
    let last := position + offset
    if marks[last]? = some ']' then
      close marks text (last + 1) { target, span := some (slice position last) }
    else
      match (marks.drop (last + 1)).findIdx? (· == '\x7d') with
      | none => none
      | some offset =>
        let stop := last + 1 + offset
        let field := slice (last + 1) stop
        let span := slice position last
        if field.isEmpty || marks[stop + 1]? ≠ some ']' then none
        else close marks text (stop + 2)
          { target
            span := if span.isEmpty then none else some span
            field := some (fieldTest field) }

/-- The directive that a text stands for. Blanks around it count for its form, but its parts are cut
out of the text with these blanks. -/
def parse (source : String) : Option Directive :=
  let text := source.toList
  let marks := ((text.dropWhile Text.isSpace).reverse.dropWhile Text.isSpace).reverse
  match marks with
  | [] => none
  | '[' :: _ => openSpan marks text 1 none
  | c :: _ =>
    if startsWith c then
      match marks.findIdx? fun c => c == '=' || c == '[' with
      | none =>
        match verbosity? source with
        | some verbosity => some { verbosity }
        | none => some { target := some source }
      | some position =>
        let target := some (String.ofList (text.take position))
        if marks[position]? = some '=' then close marks text position { target }
        else openSpan marks text (position + 1) target
    else none

/-- Whether a directive applies outside of spans. -/
def applies (directive : Directive) : Bool :=
  directive.span.isNone && !directive.field.any (·.valued)

def concerns (directive : Directive) (record : Record) : Bool :=
  directive.target.all (fun target => record.target.startsWith target) &&
    directive.field.all fun field => (record.fields.lookup field.name).isSome

def targetSize (directive : Directive) : Nat :=
  match directive.target with
  | none => 0
  | some target => target.utf8ByteSize + 1

/-- Whether the field of `a` is at least as specific as that of `b`. Of two fields the one with the
greater name is. -/
def fieldAtLeast (a b : Directive) : Bool :=
  match a.field, b.field with
  | _, none => true
  | none, some _ => false
  | some a, some b => decide (b.name ≤ a.name)

/-- Whether `a` is at least as specific as `b`: by the length of the target, then by the field. -/
def atLeastAsSpecific (a b : Directive) : Bool :=
  b.targetSize < a.targetSize || (a.targetSize = b.targetSize && fieldAtLeast a b)

end Directive

/-- A filter: its directives in the order in which they are given. -/
structure Filter where
  directives : List Directive
deriving DecidableEq, Repr, Inhabited

namespace Filter

def directives? (text : String) : Option (List Directive) :=
  ((text.splitOn ",").filter (· ≠ "")).mapM Directive.parse

/-- The filter that a text stands for. Without any directive only errors pass. -/
def parse (text : String) : Option Filter := do
  match ← directives? text with
  | [] => return ⟨[{ verbosity := Level.error.rank }]⟩
  | directives => return ⟨directives⟩

/-- The filter if nothing else is wanted: builds in some detail, and warnings of everything else. -/
def standard : Filter :=
  ⟨[{ verbosity := Level.warn.rank },
    { verbosity := Level.info.rank, target := some "treeforge_jit" }]⟩

/-- The filter of an optional setting. One that cannot be read counts as none. -/
def ofSetting (setting : Option String) : Filter := (setting >>= parse).getD standard

variable (filter : Filter)

/-- The directive that decides about a record: the most specific one, and the last of several equal
ones. -/
def deciding? (record : Record) : Option Directive :=
  (filter.directives.filter fun d => d.applies && d.concerns record).foldl (fun best d =>
    match best with
    | none => some d
    | some b => if d.atLeastAsSpecific b then some d else some b) none

def enables (record : Record) : Bool :=
  (filter.deciding? record).any fun d => record.level.rank ≤ d.verbosity

end Filter

end Arbor.Console
