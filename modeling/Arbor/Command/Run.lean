import Arbor.Command.Problem
import Arbor.Command.Terminal
import Arbor.Command.Workload

/-!
# Checking a tree

Builds the resolver of a random tree, compares it with the interpreter on random samples, and prints
statistics.
-/

namespace Arbor.Command

variable {m : Type → Type} [Monad m] (terminal : Terminal m)

/-- The configuration of a command: from a file if there is one, with the arguments on top. -/
def configure (arguments : TreeArguments) (config : Option String) :
    ExceptT Problem m Config := do
  let base ← match config with
    | none => pure {}
    | some path => ExceptT.mk do
      return (← Config.load terminal.host path).mapError .config
  liftM ((arguments.resolve base).mapError Problem.config)

def prepare (config : Config) (samples : Nat) : Except Problem Workload :=
  (Workload.of config samples).mapError .ofFailure

def compileFor (config : Config) (workload : Workload) : ExceptT Problem m Resolver := ExceptT.mk do
  return (← config.build terminal.host terminal.note workload.tree).mapError .ofFailure

def buildText (report : Report) : String :=
  if report.cacheHit then s!"cache hit in {report.duration}ms"
  else Decimal.grouped report.emittedFunctions ++ " functions, "
    ++ Decimal.grouped report.totalCases ++ s!" cases in {report.duration}ms"

def printOutcome (workload : Workload) (resolver : Resolver) (outcome : Workload.Outcome) :
    m Unit := do
  let geometry := resolver.geometry
  terminal.line ""
  terminal.stat "Tree" (s!"depth {geometry.treeDepth} (" ++ Decimal.grouped workload.tree.size
    ++ s!" nodes, {resolver.featureCount} features)")
  terminal.stat "Chunking" (s!"F={geometry.functionDepth} S={geometry.switchDepth} ("
    ++ Decimal.grouped resolver.functionCount ++ " functions, "
    ++ toString (geometry.treeDepth / geometry.functionDepth) ++ " hops)")
  terminal.stat "Build" (buildText resolver.report)
  terminal.stat "Samples" (Decimal.grouped workload.samples.length ++ " evaluated, "
    ++ Decimal.grouped outcome.distinct ++ " distinct leaves of "
    ++ Decimal.grouped workload.tree.leafCount)

/-- What is printed if every sample is resolved to the leaf that the interpreter finds. -/
def agreement : String :=
  Console.bold (Console.Colour.brightGreen.paint "✓")
    ++ " compiled resolver agrees with the interpreter"

def run (arguments : TreeArguments) (config : Option String) : ExceptT Problem m Unit := do
  let config ← configure terminal arguments config
  let workload ← liftM (prepare config arguments.samples)
  let resolver ← compileFor terminal config workload
  let outcome ← liftM ((workload.check resolver).mapError Problem.fault)
  ExceptT.lift (printOutcome terminal workload resolver outcome)
  if outcome.mismatches ≠ 0 then
    throw (.mismatch outcome.mismatches workload.samples.length)
  terminal.line agreement

end Arbor.Command
