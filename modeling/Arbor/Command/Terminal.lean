import Arbor.Console.Filter
import Arbor.Console.Line
import Arbor.Host

/-!
# Output of the commands

The banner, log lines and statistics on the standard output of a host.
-/

namespace Arbor.Command

def version : String := "0.5.3"

def logo : String :=
  "\n _____              _____\n"
    ++ "|_   _| __ ___  ___|  ___|__  _ __ __ _  ___\n"
    ++ "  | || '__/ _ \\/ _ \\ |_ / _ \\| '__/ _` |/ _ \\\n"
    ++ "  | || | |  __/  __/  _| (_) | | | (_| |  __/\n"
    ++ "  |_||_|  \\___|\\___|_|  \\___/|_|  \\__, |\\___|\n"
    ++ "                                  |___/\n"

def banner : String :=
  Console.Colour.brightGreen.paint logo ++ "\n"
    ++ Console.bold (Console.Colour.brightWhite.paint
      ("              v" ++ version ++ " - Decision Tree JIT\n")) ++ "\n"

structure Terminal (m : Type → Type) where
  host : Host m
  filter : Console.Filter
  /-- When the program started. -/
  start : Nat

namespace Terminal

variable {m : Type → Type} [Monad m] (terminal : Terminal m)

def line (text : String) : m Unit := terminal.host.out (text ++ "\n")

def stat (label value : String) : m Unit :=
  terminal.line ("  " ++ Console.bold (Console.Colour.brightCyan.paint (Decimal.padRight 10 label))
    ++ " " ++ value)

/-- Logs an event, if the filter lets it pass. -/
def note (event : Build.Event) : m Unit := do
  let record := event.toRecord
  if terminal.filter.enables record then
    match Console.line? ((← terminal.host.clock) - terminal.start) record with
    | none => return
    | some text => terminal.host.out text

end Terminal

end Arbor.Command
