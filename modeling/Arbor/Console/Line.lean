import Arbor.Console.Paint
import Arbor.Console.Record
import Arbor.Decimal.Fixed
import Arbor.Duration

/-!
# Console lines

How records look on the console. Records of other programs and of unknown events have no line.
-/

namespace Arbor.Console

/-- A number of milliseconds in the unit that suits it. -/
def durationText (milliseconds : Nat) : String :=
  if milliseconds < 1000 then s!"{milliseconds}ms"
  else if milliseconds < 60000 then Decimal.fixed 2 (Duration.floatOf milliseconds / 1000.0) ++ "s"
  else s!"{milliseconds / 60000}m {milliseconds % 60000 / 1000}s"

namespace Record

variable (record : Record)

def count (name : String) : String := Decimal.grouped (record.number name)

def duration : String := Colour.yellow.paint (durationText (record.number "duration_ms"))

def startLine : String :=
  bold (Colour.brightGreen.paint "▶") ++ " Building │ depth "
    ++ Colour.brightYellow.paint (toString (record.number "tree_depth")) ++ " │ "
    ++ Colour.brightYellow.paint (record.count "feature_count") ++ " features │ F="
    ++ toString (record.number "function_depth") ++ " S="
    ++ toString (record.number "switch_depth") ++ " │ "
    ++ Colour.brightMagenta.paint (record.count "functions") ++ " functions"

def endLine : String :=
  let source := if record.flag "cache_hit" then Colour.brightCyan.paint "from cache"
    else Colour.white.paint (record.count "emitted_functions" ++ " emitted")
  bold (Colour.brightCyan.paint "■") ++ " Build complete │ " ++ source ++ " │ " ++ record.duration

def cacheLine (label : String) (colour : Colour) : String :=
  Colour.brightBlue.paint "◆" ++ " " ++ colour.paint label ++ " │ "
    ++ Colour.brightBlack.paint ((record.text? "entry").getD "?")

def warningLine : String :=
  let reason := (record.text? "message").getD ((record.text? "error").getD "unknown")
  let event := ((record.text? "event").getD "").map fun c => if c = '_' then ' ' else c
  bold (Colour.brightRed.paint "!") ++ " " ++ Colour.brightRed.paint event ++ " │ "
    ++ (record.text? "entry").getD "?" ++ " │ " ++ reason

def phaseLine (phase unit : String) : String :=
  Colour.brightBlue.paint "◀" ++ " " ++ bold (Colour.white.paint phase) ++ " │ "
    ++ bold (Colour.brightMagenta.paint (record.count unit)) ++ " " ++ unit ++ " │ "
    ++ record.duration

def functionLine : String :=
  "  " ++ Colour.brightBlack.paint "·" ++ " node_evaluator_" ++ toString (record.number "root")
    ++ " │ " ++ record.count "switches" ++ " switches │ " ++ record.count "cases" ++ " cases │ "
    ++ record.count "predicates" ++ " predicates"

def body? : Option String :=
  match record.text? "event" with
  | some "build_start" => some record.startLine
  | some "build_end" => some record.endLine
  | some "cache_hit" => some (record.cacheLine "cache hit" .brightGreen)
  | some "cache_miss" => some (record.cacheLine "cache miss" .yellow)
  | some "cache_stale" => some (record.cacheLine "cache stale" .yellow)
  | some "cache_store" => some (record.cacheLine "cache stored" .brightGreen)
  | some "cache_corruption" => some record.warningLine
  | some "cache_write_failed" => some record.warningLine
  | some "compose_end" => some (record.phaseLine "Compose" "cases")
  | some "compile_end" => some (record.phaseLine "Compile" "functions")
  | some "function_composed" =>
    if Level.debug.rank ≤ record.level.rank then some record.functionLine else none
  | _ => none

end Record

/-- The time since the start of the program in front of every line. -/
def elapsedText (nanoseconds : Nat) : String :=
  Colour.brightBlack.paint
    (Decimal.padLeft 7 (Decimal.fixed 3 (Duration.seconds nanoseconds)) ++ "s")

def line? (nanoseconds : Nat) (record : Record) : Option String :=
  if record.target.startsWith "treeforge" then
    record.body?.map fun body => elapsedText nanoseconds ++ " " ++ body ++ "\n"
  else none

end Arbor.Console
