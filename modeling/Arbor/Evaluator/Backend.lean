import Arbor.Error
import Arbor.Evaluator.Text

/-!
# Backends

What is needed of a machine to run functions on it. A function is verified and then compiled, and
when all are compiled they are made callable. Each of these steps can be refused, with a text that
says why. Functions are stored as text, which the machine writes and reads.
-/

namespace Arbor.Evaluator

structure Backend where
  arithmetic : Arithmetic
  /-- Why nothing can be compiled for this machine. -/
  refusal : Option String
  /-- What is wrong with a function. -/
  verify : Function → Option String
  /-- Why a function cannot be compiled. -/
  compile : Function → Option String
  /-- Why functions that are compiled cannot be made callable. -/
  finalize : List Function → Option String
  write : Function → String
  /-- All functions in a text. -/
  read : String → Option (List Function)

namespace Backend

/-- The machine of this library. It refuses nothing. -/
def standard : Backend where
  arithmetic := .ofNodes
  refusal := none
  verify _ := none
  compile _ := none
  finalize _ := none
  write := Function.toText
  read := functionsOf

/-- Passes on what a machine says about a symbol, if it says anything. -/
def insist (symbol : String) : (complaint : Option String) → Except Failure Unit
  | none => .ok ()
  | some text => .error (.error (.emit symbol (.described text)))

variable (backend : Backend)

/-- The function in a text, which is to hold exactly one. -/
def parse (symbol text : String) : Except Failure Function :=
  match backend.read text with
  | some [function] => .ok function
  | some _ => .error (.error (.corrupt symbol .functionCount))
  | none => .error (.error (.corrupt symbol .code))

end Backend

end Arbor.Evaluator
