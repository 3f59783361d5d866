import Arbor.Node

/-!
# Evaluator code

The code of one evaluator. Given a feature vector it returns the node at which the evaluation goes
on. A branch evaluates one predicate. A switch evaluates several predicates into a condition vector
and looks up in a table which of its arms continues.
-/

namespace Arbor.Evaluator

inductive Code where
  /-- Return a node. -/
  | goto (next : Nat)
  /-- Evaluate a node and branch on it. -/
  | branch (test : Node) (onTrue onFalse : Code)
  /-- Evaluate `tests` into a condition vector, the first as the lowest bit, and continue with the
  arm that the table holds for the vector. -/
  | switch (tests : List Node) (table : Array Nat) (arms : List Code)
deriving Inhabited

/-- The outcomes of the tests as a number, the first as the lowest bit. All are evaluated. -/
def conditionVector (features : Array Float32) : (tests : List Node) → Except Fault Nat
  | [] => .ok 0
  | test :: rest => do
    let outcome ← test.evaluate features
    let vector ← conditionVector features rest
    return 2 * vector + outcome.toNat

mutual

/-- The node at which the evaluation goes on. -/
def Code.run (features : Array Float32) : Code → Except Fault Nat
  | .goto next => .ok next
  | .branch test onTrue onFalse => do
    if ← test.evaluate features then onTrue.run features else onFalse.run features
  | .switch tests table arms => do
    let vector ← conditionVector features tests
    Code.runArm features vector arms (table[vector]?.getD arms.length)

def Code.runArm (features : Array Float32) (vector : Nat) : (arms : List Code) → (arm : Nat) →
    Except Fault Nat
  | [], _ => .error (.uncovered vector)
  | code :: _, 0 => code.run features
  | _ :: rest, arm + 1 => Code.runArm features vector rest arm

end

structure Stats where
  /-- Jump tables. -/
  switches : Nat := 0
  /-- Case labels over all jump tables. -/
  cases : Nat := 0
  /-- Branches on a single node. -/
  branches : Nat := 0
  /-- Predicates. -/
  predicates : Nat := 0
deriving DecidableEq, Repr, Inhabited

namespace Stats

def add (a b : Stats) : Stats :=
  ⟨a.switches + b.switches, a.cases + b.cases, a.branches + b.branches, a.predicates + b.predicates⟩

/-- Counts of one switch without its arms. -/
def ofSwitch (tests arms : Nat) (table : Array Nat) : Stats :=
  { switches := 1, predicates := tests
    cases := table.foldl (fun labels arm => if arm < arms then labels + 1 else labels) 0 }

def ofBranch : Stats := { branches := 1, predicates := 1 }

end Stats

mutual

def Code.stats : Code → Stats
  | .goto _ => {}
  | .branch _ onTrue onFalse => (Stats.ofBranch.add onTrue.stats).add onFalse.stats
  | .switch tests table arms =>
    (Stats.ofSwitch tests.length arms.length table).add (Code.armStats arms)

def Code.armStats : List Code → Stats
  | [] => {}
  | code :: rest => code.stats.add (Code.armStats rest)

end

end Arbor.Evaluator
