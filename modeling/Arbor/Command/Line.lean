import Arbor.Command.Arguments

/-!
# Command lines

How a list of words is read as a command. A value follows its option as the next word, behind an
equals sign, or, for options of one letter, directly. A word that starts with a dash is an option
and never a value, except for a single dash. Words are read from left to right, and a wish for help
or the version takes effect at once, unless something before it is wrong.

## Main definitions

* `Setting`: the options.
* `Line.scan`: the options of a command.
* `Line.parse`: a whole command line.
-/

namespace Arbor.Command

inductive Setting where
  | config
  | depth
  | features
  | functionDepth
  | switchDepth
  | cacheDir
  | samples
  | seed
  | warmup
  | runs
  | passes
  | csv
  | markdown
deriving DecidableEq, Repr, Inhabited

inductive Datum where
  /-- A number of 32 bits. -/
  | word (n : UInt32)
  /-- A number of 64 bits. -/
  | long (n : UInt64)
  | path (text : String)
deriving DecidableEq, Repr, Inhabited

def digits? (text : List Char) : Option Nat :=
  if !text.isEmpty && text.all Char.isDigit then
    some (text.foldl (fun n c => n * 10 + (c.toNat - '0'.toNat)) 0)
  else none

/-- A natural number with an optional plus sign. -/
def natural? (text : String) : Option Nat :=
  match text.toList with
  | '+' :: digits => digits? digits
  | digits => digits? digits

/-- A number of 32 bits. It is read with a sign, so a zero may have a minus. -/
def word? (text : String) : Option UInt32 := do
  let n ← match text.toList with
    | '-' :: digits => (digits? digits).filter (· = 0)
    | _ => natural? text
  if n < UInt32.size then some n.toUInt32 else none

def long? (text : String) : Option UInt64 := do
  let n ← natural? text
  if n < UInt64.size then some n.toUInt64 else none

namespace Setting

def name : Setting → String
  | config => "config"
  | depth => "depth"
  | features => "features"
  | functionDepth => "function-depth"
  | switchDepth => "switch-depth"
  | cacheDir => "cache-dir"
  | samples => "samples"
  | seed => "seed"
  | warmup => "warmup"
  | runs => "runs"
  | passes => "passes"
  | csv => "csv"
  | markdown => "markdown"

def letter? : Setting → Option Char
  | depth => some 'd'
  | features => some 'f'
  | samples => some 'n'
  | _ => none

/-- Reads the value of an option. Paths are not empty. -/
def read : Setting → String → Option Datum
  | depth, text | features, text | functionDepth, text | switchDepth, text =>
    (word? text).map .word
  | samples, text | seed, text | warmup, text | runs, text | passes, text => (long? text).map .long
  | config, text | cacheDir, text | csv, text | markdown, text =>
    if text.isEmpty then none else some (.path text)

end Setting

def commonSettings : List Setting := [.config]

def runSettings : List Setting :=
  [.config, .depth, .features, .functionDepth, .switchDepth, .cacheDir, .samples, .seed]

def benchSettings : List Setting := runSettings ++ [.warmup, .runs, .passes, .csv, .markdown]

inductive Stop where
  | misuse
  | help
  | version
deriving DecidableEq, Repr, Inhabited

abbrev Given := List (Setting × Datum)

namespace Line

/-- An option whose value is still missing or not yet read. -/
abbrev Held := Option (Setting × Option String)

/-- Adds an option with its value, which must be one and be given only once. -/
def add (given : Given) (setting : Setting) (text : String) : Except Stop Given :=
  match setting.read text with
  | none => .error .misuse
  | some datum =>
    if (given.lookup setting).isSome then .error .misuse else .ok (given ++ [(setting, datum)])

def settle (given : Given) : Held → Except Stop Given
  | none => .ok given
  | some (_, none) => .error .misuse
  | some (setting, some text) => add given setting text

/-- An option in front of its value. The value is part of the word or becomes the next word. -/
def take (given : Given) (setting : Setting) : (value : Option String) → Except Stop (Given × Held)
  | some text => do return (← add given setting text, none)
  | none => .ok (given, some (setting, none))

def named (settings : List Setting) (versioned : Bool) (given : Given) (text : String) :
    Except Stop (Given × Held) :=
  let (name, value) := match text.splitOn "=" with
    | name :: first :: rest => (name, some (String.intercalate "=" (first :: rest)))
    | _ => (text, none)
  match settings.find? (·.name = name) with
  | some setting => take given setting value
  | none =>
    if value.isNone ∧ name = "help" then .error .help
    else if value.isNone ∧ name = "version" ∧ versioned then .error .version
    else .error .misuse

def lettered (settings : List Setting) (versioned : Bool) (given : Given) :
    List Char → Except Stop (Given × Held)
  | [] => .error .misuse
  | letter :: rest =>
    match settings.find? (·.letter? = some letter) with
    | some setting =>
      take given setting (match rest with
        | [] => none
        | '=' :: value => some (String.ofList value)
        | value => some (String.ofList value))
    | none =>
      if letter = 'h' then .error .help
      else if letter = 'V' ∧ versioned then .error .version
      else .error .misuse

/-- A word that is an option. What was held before it is settled first. -/
def option (settings : List Setting) (versioned : Bool) (given : Given) (held : Held) :
    List Char → Except Stop (Given × Held)
  | '-' :: text => do named settings versioned (← settle given held) (String.ofList text)
  | text => do lettered settings versioned (← settle given held) text

/-- The options of a command. Behind two dashes nothing may follow. -/
def scan (settings : List Setting) : (words : List String) → (given : Given) → (held : Held) →
    Except Stop Given
  | [], given, held => settle given held
  | word :: words, given, held =>
    match word.toList with
    | ['-', '-'] => if words.isEmpty then settle given held else .error .misuse
    | '-' :: c :: text => do
      let (given, held) ← option settings false given held (c :: text)
      scan settings words given held
    | _ =>
      match held with
      | some (setting, none) => scan settings words given (some (setting, some word))
      | _ => .error .misuse

/-- The words behind the command for help: the names of one command, or nothing. -/
def helpOn : (words : List String) → Stop
  | [] => .help
  | [word] => if ["run", "bench", "help"].contains word then .help else .misuse
  | _ => .misuse

section

variable (given : Given)

def word? (setting : Setting) : Option UInt32 :=
  match given.lookup setting with
  | some (.word n) => some n
  | _ => none

def long? (setting : Setting) : Option UInt64 :=
  match given.lookup setting with
  | some (.long n) => some n
  | _ => none

def count (setting : Setting) (fallback : Nat) : Nat :=
  ((long? given setting).map UInt64.toNat).getD fallback

def path? (setting : Setting) : Option String :=
  match given.lookup setting with
  | some (.path text) => some text
  | _ => none

def treeArguments : TreeArguments :=
  let defaults : TreeArguments := {}
  { depth := word? given .depth
    features := word? given .features
    functionDepth := word? given .functionDepth
    switchDepth := word? given .switchDepth
    cacheDir := path? given .cacheDir
    samples := count given .samples defaults.samples
    seed := long? given .seed }

def benchArguments : BenchArguments :=
  let defaults : BenchArguments := {}
  { tree := treeArguments given
    warmup := count given .warmup defaults.warmup
    runs := count given .runs defaults.runs
    passes := count given .passes defaults.passes
    csv := path? given .csv
    markdown := path? given .markdown }

end

/-- A command with the words behind it, after options in front of it. A configuration that is named
on both sides is taken from behind the command. -/
def command (words : List String) (given : Given) (held : Held) (settings : List Setting)
    (verb : Given → Verb) : Except Stop Invocation := do
  let own ← scan settings words [] none
  let common ← settle given held
  return ⟨verb own, path? (own ++ common) .config⟩

/-- A command line after options in front of the command. The word behind an option that lacks its
value is never the command. -/
def parseFrom : (words : List String) → (given : Given) → (held : Held) → Except Stop Invocation
  | [], _, _ => .error .misuse
  | word :: words, given, held =>
    match word.toList with
    | ['-', '-'] => .error .misuse
    | '-' :: c :: text => do
      let (given, held) ← option commonSettings true given held (c :: text)
      parseFrom words given held
    | _ =>
      match held with
      | some (setting, none) => parseFrom words given (some (setting, some word))
      | _ =>
        match word with
        | "run" => command words given held runSettings (.run ∘ treeArguments)
        | "bench" => command words given held benchSettings (.bench ∘ benchArguments)
        | "help" => .error (helpOn words)
        | _ => .error .misuse

def parse (words : List String) : Except Stop Invocation := parseFrom words [] none

end Line

end Arbor.Command
