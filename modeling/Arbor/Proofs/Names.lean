import Arbor.Evaluator.Engine
import Arbor.Proofs.Cache.Key
import Mathlib.Logic.Function.Defs

/-!
# Names

The entries of a cache and the symbols of an engine are found by their names. The name of an
evaluator ends with the number of its node, so that evaluators of different nodes have different
names, and none is named like the logarithm.

## Main statements

* `Evaluator.symbolOf_injective`, `Evaluator.symbolOf_ne_intrinsic`: the names of evaluators.
* `names_distinct`: which entries and symbols share a name.
-/

namespace Arbor

namespace Evaluator

theorem toList_symbolOf (root : Nat) :
    (symbolOf root).toList = "node_evaluator_".toList ++ Nat.toDigits 10 root := by
  delta symbolOf
  simp only [String.toList_append, Nat.toString_eq_ofList_toDigits, String.toList_ofList]
  rfl

theorem symbolOf_injective : Function.Injective symbolOf := by
  intro root other same
  rw [← String.toList_inj, toList_symbolOf, toList_symbolOf, List.append_cancel_left_eq] at same
  exact Cache.Key.toDigits_inj.1 same

theorem symbolOf_ne_intrinsic (root : Nat) : symbolOf root ≠ Engine.intrinsic := by
  intro same
  have initial := congrArg (·.toList.head?) same
  have symbol : "node_evaluator_".toList = 'n' :: "ode_evaluator_".toList := by decide
  simp only [toList_symbolOf, symbol, List.cons_append, List.head?_cons] at initial
  exact absurd initial (by decide)

end Evaluator

/-- Module entries share a name only for one key, and tree entries only for one depth and feature
count. No tree entry has the name of a module entry. Evaluators share a name only for one node, and
none has the name of the logarithm. This holds of numbers of any length. -/
theorem names_distinct :
    (∀ key other : Cache.Key, key.moduleEntry = other.moduleEntry ↔ key = other) ∧
    (∀ key other : Cache.Key, key.treeEntry = other.treeEntry ↔
      key.geometry.treeDepth = other.geometry.treeDepth ∧
        key.featureCount = other.featureCount) ∧
    (∀ key other : Cache.Key, key.treeEntry ≠ other.moduleEntry) ∧
    Function.Injective Evaluator.symbolOf ∧
    ∀ root, Evaluator.symbolOf root ≠ Evaluator.Engine.intrinsic :=
  ⟨fun _ _ => Cache.Key.moduleEntry_inj, fun _ _ => Cache.Key.treeEntry_inj,
    Cache.Key.treeEntry_ne_moduleEntry, Evaluator.symbolOf_injective,
    Evaluator.symbolOf_ne_intrinsic⟩

end Arbor
