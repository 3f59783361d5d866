/-!
# Plans of benchmarks

How often an evaluator runs over a set of samples, and where the reports go.
-/

namespace Arbor.Benchmark

/-- A plan: runs to warm up, measured runs, and passes over the samples in each run. -/
structure Plan where
  name : String := "Decision tree"
  warmup : Nat := 1
  runs : Nat := 3
  passes : Nat := 1
  csv : Option String := none
  markdown : Option String := none
deriving DecidableEq, Repr, Inhabited

def Plan.withPasses (plan : Plan) (passes : Nat) : Plan := { plan with passes := max passes 1 }

def Plan.calls (plan : Plan) (samples : Nat) : Nat :=
  (plan.warmup + plan.runs) * plan.passes * samples

end Arbor.Benchmark
