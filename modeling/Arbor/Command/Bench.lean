import Arbor.Benchmark.Measure
import Arbor.Benchmark.Report
import Arbor.Command.Run

/-!
# Measuring a tree

Times the interpreter and the resolver of a random tree on the same random samples and writes
reports.
-/

namespace Arbor.Command

def BenchArguments.plan (arguments : BenchArguments) (depth : Nat) : Benchmark.Plan :=
  { name := s!"Decision tree depth {depth}"
    warmup := arguments.warmup
    runs := arguments.runs
    csv := arguments.csv
    markdown := arguments.markdown : Benchmark.Plan }.withPasses arguments.passes

def treeName (config : Config) (tree : Tree) : String :=
  s!"depth {tree.depth}, {config.featureCount.toNat} features"

variable {m : Type → Type} [Monad m] (terminal : Terminal m)

def measureBoth (plan : Benchmark.Plan) (treeName : String) (workload : Workload)
    (resolver : Resolver) : ExceptT Fault m (Benchmark.Result × Benchmark.Result) := do
  let clock := terminal.host.clock
  let tree := workload.tree
  let interpreted ← Benchmark.measure clock plan "interpreter" treeName tree.interpret
    workload.samples
  let geometry := resolver.geometry
  let compiled ← Benchmark.measure clock plan
    s!"F={geometry.functionDepth} S={geometry.switchDepth}" treeName
    (resolver.run { features := · } tree) workload.samples
  return (interpreted, compiled)

def writeReport (label : String) (path : Option String) (text : Except Fault String) :
    ExceptT Problem m Unit := do
  match path with
  | none => return
  | some path =>
    let text ← liftM (text.mapError Problem.fault)
    match ← terminal.host.write path text.toUTF8.toList with
    | .error cause => throw (.report cause)
    | .ok () => terminal.stat label path

def publish (plan : Benchmark.Plan) (results : List Benchmark.Result) : ExceptT Problem m Unit := do
  terminal.line ""
  terminal.line (← liftM ((Benchmark.Report.comparison results).mapError Problem.fault))
  writeReport terminal "CSV" plan.csv (.ok (Benchmark.Report.csv results))
  writeReport terminal "Markdown" plan.markdown (Benchmark.Report.markdown results)

def bench (arguments : BenchArguments) (config : Option String) : ExceptT Problem m Unit := do
  let config ← configure terminal arguments.tree config
  let workload ← liftM (prepare config arguments.tree.samples)
  let resolver ← compileFor terminal config workload
  let plan := arguments.plan workload.tree.depth
  let name := treeName config workload.tree
  let (interpreted, compiled) ← ExceptT.mk do
    return (← measureBoth terminal plan name workload resolver).mapError Problem.fault
  publish terminal plan [interpreted, compiled]
  if interpreted.checksum ≠ compiled.checksum then
    throw (.checksums interpreted.checksum compiled.checksum)

end Arbor.Command
