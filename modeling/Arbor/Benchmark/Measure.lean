import Arbor.Benchmark.Plan
import Arbor.Benchmark.Result
import Arbor.Word

/-!
# Measuring

Runs of an evaluator over samples, timed by a clock.

## Main definitions

* `leafSum`: the sum of the leaves over all passes of a run.
* `measure`: the measured runs of a plan.
-/

namespace Arbor.Benchmark

abbrev Evaluator := Array Float32 → Except Fault Nat

/-- Adds the leaves of all samples to a sum of 64 bits. -/
def pass (evaluate : Evaluator) (samples : List (Array Float32)) (sum : UInt64) :
    Except Fault UInt64 :=
  samples.foldlM (fun sum features => return sum + (← evaluate features).toUInt64) sum

def passes (evaluate : Evaluator) (samples : List (Array Float32)) : (count : Nat) →
    (sum : UInt64) → Except Fault UInt64
  | 0, sum => .ok sum
  | count + 1, sum => do passes evaluate samples count (← pass evaluate samples sum)

def leafSum (evaluate : Evaluator) (samples : List (Array Float32)) (count : Nat) :
    Except Fault UInt64 :=
  passes evaluate samples count 0

/-- How many evaluations a run has. Their number has 64 bits. -/
def evaluations (samples : List (Array Float32)) (count : Nat) : Except Fault Nat :=
  Word.mul samples.length count

def warmUp (evaluate : Evaluator) (samples : List (Array Float32)) (count : Nat) : (runs : Nat) →
    Except Fault Unit
  | 0 => .ok ()
  | runs + 1 => do
    let _ ← leafSum evaluate samples count
    warmUp evaluate samples count runs

variable {m : Type → Type} [Monad m]

def timedRun (clock : m Nat) (evaluate : Evaluator) (samples : List (Array Float32))
    (count index : Nat) : ExceptT Fault m Run := do
  let start ← liftM clock
  let checksum ← liftM (leafSum evaluate samples count)
  let stop ← liftM clock
  return ⟨index, stop - start, ← liftM (evaluations samples count), checksum⟩

/-- The result of a plan: the measured runs after those to warm up. -/
def measure (clock : m Nat) (plan : Plan) (evaluator tree : String) (evaluate : Evaluator)
    (samples : List (Array Float32)) : ExceptT Fault m Result := do
  liftM (warmUp evaluate samples plan.passes plan.warmup)
  let runs ← (List.range plan.runs).mapM (timedRun clock evaluate samples plan.passes)
  return ⟨plan.name, evaluator, tree, runs⟩

end Arbor.Benchmark
