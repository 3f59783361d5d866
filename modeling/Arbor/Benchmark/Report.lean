import Arbor.Benchmark.Result
import Arbor.Decimal.Fixed

/-!
# Reports of benchmarks

Results as CSV, with a row for each run, and as Markdown, with a page for each result and a table
that compares results. Times are written in milliseconds.

## Main definitions

* `Report.csv`: the runs of several results.
* `Report.page`: one result in detail.
* `Report.comparison`: several results side by side.
* `Report.markdown`: the comparison and all pages.
-/

namespace Arbor.Benchmark.Report

def lines (texts : List String) : String := String.join (texts.map (· ++ "\n"))

def millis (nanoseconds : Nat) : String := Decimal.fixed 3 (Duration.seconds nanoseconds * 1000)

def csvHeader : String :=
  "evaluator,run_index,elapsed_ms,evaluations,evaluations_per_second,ns_per_evaluation,checksum"

def csvRow (result : Result) (run : Run) : String :=
  String.intercalate "," [result.evaluator, toString run.index, millis run.elapsed,
    toString run.evaluations, Decimal.fixed 2 run.speed, Decimal.fixed 2 run.cost,
    toString run.checksum.toNat]

def csv (results : List Result) : String :=
  lines (csvHeader :: results.flatMap fun result => result.runs.map (csvRow result))

def row (cells : List String) : String := "| " ++ String.intercalate " | " cells ++ " |"

def runRow (run : Run) : String :=
  row [toString run.index, millis run.elapsed, Decimal.fixed 0 run.speed, Decimal.fixed 2 run.cost]

def summary (result : Result) : Except Fault (List String) := do
  return [
    row ["Metric", "Value"],
    "|--------|-------|",
    row ["Avg Time", millis (← result.averageTime) ++ " ms"],
    row ["Min Time", millis result.leastTime ++ " ms"],
    row ["Max Time", millis result.greatestTime ++ " ms"],
    row ["Avg Evaluations/sec", Decimal.fixed 0 result.averageSpeed],
    row ["Best Evaluations/sec", Decimal.fixed 0 result.bestSpeed],
    "",
    "## Run Details",
    "",
    row ["Run", "Time (ms)", "Evaluations/sec", "ns/eval"],
    "|-----|-----------|-----------------|---------|"] ++ result.runs.map runRow

def page (result : Result) : Except Fault String := do
  let heading := [
    "# Benchmark: " ++ result.name,
    "",
    "- **Evaluator**: " ++ result.evaluator,
    "- **Tree**: " ++ result.tree,
    "- **Runs**: " ++ toString result.runs.length,
    "",
    "## Summary",
    ""]
  if result.runs.isEmpty then return lines (heading ++ ["*No runs completed.*"])
  return lines (heading ++ (← summary result))

/-- How many times as fast as the baseline. A baseline without speed compares with nothing. -/
def speedup (baseline speed : Float) : Float := if 0 < baseline then speed / baseline else 0

def comparisonRow (baseline : Float) (result : Result) : Except Fault String := do
  let checksum := match result.checksum with
    | some checksum => toString checksum.toNat
    | none => "unstable"
  return row [result.evaluator, result.tree, millis (← result.averageTime),
    Decimal.fixed 0 result.averageSpeed,
    Decimal.fixed 2 (speedup baseline result.averageSpeed) ++ "x", checksum]

/-- Results side by side. The first one is the baseline. -/
def comparison (results : List Result) : Except Fault String := do
  let baseline := match results with
    | [] => 0
    | first :: _ => first.averageSpeed
  return lines ([
    "## Comparison",
    "",
    row ["Evaluator", "Tree", "Avg Time (ms)", "Evaluations/sec", "Speedup", "Checksum"],
    "|-----------|------|---------------|-----------------|---------|----------|"] ++
    (← results.mapM (comparisonRow baseline)))

def markdown (results : List Result) : Except Fault String := do
  let pages ← results.mapM page
  return String.join ((← comparison results) :: pages.map ("\n" ++ ·))

end Arbor.Benchmark.Report
