import Arbor.Build.Event
import Arbor.Text.Quoted

/-!
# Log records

A record is an event as the log sees it: a level, a target and named values. The console knows some
names and ignores the others.
-/

namespace Arbor.Console

/-- Levels, from the most to the least urgent. -/
inductive Level where
  | error
  | warn
  | info
  | debug
  | trace
deriving DecidableEq, Repr, Inhabited

def Level.rank : Level → Nat
  | error => 1
  | warn => 2
  | info => 3
  | debug => 4
  | trace => 5

inductive Value where
  /-- A text that is recorded in quotes. -/
  | text (s : String)
  /-- A text that is recorded as it is. -/
  | display (s : String)
  /-- A number; negative ones are recorded as words. -/
  | number (n : Int)
  | flag (b : Bool)
deriving DecidableEq, Repr, Inhabited

structure Record where
  level : Level
  target : String
  fields : List (String × Value)
deriving DecidableEq, Repr, Inhabited

namespace Record

variable (record : Record)

def text? (name : String) : Option String :=
  match record.fields.lookup name with
  | some (.text s) => some (Text.trimQuotes (Text.quoted s))
  | some (.display s) => some (Text.trimQuotes s)
  | _ => none

/-- The number of a field, as a 64-bit word; zero if there is none. -/
def number (name : String) : Nat :=
  match record.fields.lookup name with
  | some (.number n) => (n % 0x10000000000000000).toNat
  | _ => 0

def flag (name : String) : Bool :=
  match record.fields.lookup name with
  | some (.flag b) => b
  | _ => false

end Record

end Arbor.Console

namespace Arbor.Build.Event

open Console

/-- The part of the program that reports events about the build as a whole. -/
def buildTarget : String := "treeforge_jit::resolver"

def composeTarget : String := "treeforge_jit::codegen::composer"

def entryRecord (name entry : String) : Record :=
  ⟨.info, buildTarget, [("event", .text name), ("entry", .display entry)]⟩

def toRecord : Event → Record
  | started geometry featureCount functions =>
    ⟨.info, buildTarget, [("event", .text "build_start"),
      ("tree_depth", .number geometry.treeDepth), ("feature_count", .number featureCount),
      ("function_depth", .number geometry.functionDepth),
      ("switch_depth", .number geometry.switchDepth), ("functions", .number functions)]⟩
  | cacheHit entry => entryRecord "cache_hit" entry
  | cacheMiss entry => entryRecord "cache_miss" entry
  | cacheStale entry => entryRecord "cache_stale" entry
  | cacheStored entry => entryRecord "cache_store" entry
  | cacheCorrupt entry cause =>
    ⟨.warn, buildTarget, [("event", .text "cache_corruption"), ("entry", .display entry),
      ("message", .display cause.message)]⟩
  | cacheWriteFailed entry error =>
    ⟨.warn, buildTarget, [("event", .text "cache_write_failed"), ("entry", .display entry),
      ("error", .display error.message)]⟩
  | functionComposed root stats =>
    ⟨.debug, composeTarget, [("event", .text "function_composed"), ("root", .number root),
      ("switches", .number stats.switches), ("cases", .number stats.cases),
      ("predicates", .number stats.predicates)]⟩
  | composed functions cases duration =>
    ⟨.info, composeTarget, [("event", .text "compose_end"), ("functions", .number functions),
      ("cases", .number cases), ("duration_ms", .number duration)]⟩
  | compiled functions duration =>
    ⟨.info, buildTarget, [("event", .text "compile_end"), ("functions", .number functions),
      ("duration_ms", .number duration)]⟩
  | collected functions =>
    ⟨.info, buildTarget, [("event", .text "collect_end"), ("functions", .number functions)]⟩
  | finished fromCache emittedFunctions duration =>
    ⟨.info, buildTarget, [("event", .text "build_end"), ("cache_hit", .flag fromCache),
      ("emitted_functions", .number emittedFunctions), ("duration_ms", .number duration)]⟩

end Arbor.Build.Event
