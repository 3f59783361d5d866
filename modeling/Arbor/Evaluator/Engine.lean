import Arbor.Evaluator.Backend
import Arbor.Evaluator.Emit

/-!
# Engine

The symbols known to one engine. Symbol 0 is the logarithm that functions may call. Every further
symbol takes the next number when it is first declared, and keeps it; a function is defined for it
later and at most once. Actions keep what was declared before they failed.

## Main definitions

* `Engine.compose`, `Engine.submit`: emit evaluators and make them callable.
* `Engine.load`: make evaluators callable that have been stored as text.
* `Engine.lookupEvaluator`: the entry point of an evaluator.
-/

namespace Arbor.Evaluator

/-- The declared symbols, the first of which has number 1, with their functions. -/
structure Engine where
  entries : Array (String × Option Function) := #[]
deriving Inhabited

abbrev EngineM := ExceptT Failure (StateM Engine)

/-- What an action returns, with the engine that it leaves. If it fails, the engine is dropped. -/
def EngineM.outcome {α : Type} (action : EngineM α) (engine : Engine) :
    Except Failure (α × Engine) :=
  match action.run.run engine with
  | (.ok a, after) => .ok (a, after)
  | (.error failure, _) => .error failure

namespace Engine

/-- The name of symbol 0. -/
def intrinsic : String := "treeforge_ln_f32"

/-- Stands in errors for all functions of an engine. -/
def moduleSymbol : String := "<module>"

def position? (engine : Engine) (symbol : String) : Option Nat :=
  engine.entries.findIdx? (·.1 == symbol)

def declare (symbol : String) : EngineM Nat := do
  if symbol = intrinsic then throw (.error (.emit symbol .reserved))
  let engine ← get
  match engine.position? symbol with
  | some position => return position + 1
  | none =>
    set (Engine.mk (engine.entries.push (symbol, none)))
    return engine.entries.size + 1

def lookup (symbol : String) : EngineM Function := do
  let engine ← get
  match engine.entries.find? (·.1 == symbol) with
  | some (_, some function) => return function
  | _ => throw (.error (.emit symbol .undeclared))

section

variable (backend : Backend)

def start : Except Failure Engine :=
  match backend.refusal with
  | none => .ok {}
  | some text => .error (.error (.backendUnavailable text))

def define (symbol : String) (function : Function) : EngineM Unit := do
  let engine ← get
  match engine.position? symbol with
  | none => throw (.error (.emit symbol .undeclared))
  | some position =>
    if (engine.entries[position]?.bind (·.2)).isSome then throw (.error (.emit symbol .defined))
    liftM (Backend.insist symbol (backend.compile function))
    set (Engine.mk (engine.entries.setIfInBounds position (symbol, some function)))

/-- Declares the evaluator of `root`, emits and verifies it. -/
def compose (tree : Tree) (functionDepth : Nat) (selector : Selector) (root : Nat) :
    EngineM (Nat × Composed) := do
  let number ← declare (symbolOf root)
  let composed ← liftM (composeFunction tree functionDepth selector root)
  liftM (Backend.insist composed.symbol (backend.verify composed.function))
  return (number, composed)

/-- Compiles functions and makes them callable. -/
def submit (functions : List (String × Function)) : EngineM Unit := do
  functions.forM fun (symbol, function) => define backend symbol function
  liftM (Backend.insist moduleSymbol (backend.finalize (functions.map (·.2))))

/-- Reads functions from text, declares and compiles them. Nothing is compiled if one of them cannot
be read. -/
def load (functions : List (String × String)) : EngineM Unit := do
  let parsed ← functions.mapM fun (symbol, text) => do
    let function ← liftM (backend.parse symbol text)
    let _ ← declare symbol
    return (symbol, function)
  submit backend parsed

def lookupEvaluator (symbol : String) : EngineM EntryPoint := do
  return (← lookup symbol).run backend.arithmetic

end

end Engine

end Arbor.Evaluator
