import Arbor.Binary
import Arbor.Duration
import Arbor.Fault

/-!
# Results of benchmarks

Measured runs and what follows from them. Times are in nanoseconds, speeds in evaluations per
second.

## Main definitions

* `Run`: a measured run.
* `Result`: the runs of an evaluator.
* `Result.checksum`: the checksum on which all runs agree.
* `Result.averageTime`, `Result.averageSpeed`: averages over the runs.
-/

namespace Arbor.Benchmark

/-- A measured run. Its checksum is the sum of the leaves that were found. -/
structure Run where
  index : Nat
  elapsed : Nat
  evaluations : Nat
  checksum : UInt64
deriving DecidableEq, Repr, Inhabited

namespace Run

variable (run : Run)

/-- Evaluations per second; zero if no time was measured. -/
def speed : Float :=
  if run.elapsed = 0 then 0 else Duration.floatOf run.evaluations / Duration.seconds run.elapsed

def cost : Float :=
  if run.evaluations = 0 then 0
  else Binary.toFloat false ⟨run.elapsed, 0⟩ / Duration.floatOf run.evaluations

end Run

structure Result where
  name : String
  evaluator : String
  tree : String
  runs : List Run := []
deriving DecidableEq, Repr, Inhabited

namespace Result

variable (result : Result)

/-- The checksum of all runs, if there are runs and they agree. -/
def checksum : Option UInt64 :=
  match result.runs with
  | [] => none
  | first :: rest => if rest.all (·.checksum == first.checksum) then some first.checksum else none

/-- The average time of a run. The sum of all times has to be a duration. -/
def averageTime : Except Fault Nat :=
  let total := result.runs.foldl (· + ·.elapsed) 0
  if Duration.limit ≤ total then .error .durationOverflow else .ok (total / result.runs.length)

def leastTime : Nat := (result.runs.map (·.elapsed)).min?.getD 0

def greatestTime : Nat := (result.runs.map (·.elapsed)).max?.getD 0

def averageSpeed : Float :=
  if result.runs.isEmpty then 0
  else result.runs.foldl (· + ·.speed) 0 / Duration.floatOf result.runs.length

def bestSpeed : Float :=
  result.runs.foldl (fun best run => if best < run.speed then run.speed else best) 0

end Result

end Arbor.Benchmark
