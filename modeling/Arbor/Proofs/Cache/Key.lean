import Arbor.Cache.Key
import Mathlib.Data.List.Basic

/-!
# Names of entries

The numbers of a key can be read off the names of its entries: digits end at the first character
that is none. So entries have one name only if they belong together.

## Main statements

* `treeEntry_inj`: the keys that share a tree entry.
* `moduleEntry_inj`: no two keys share a module entry.
* `treeEntry_ne_moduleEntry`: no entry holds both a tree and a module.
-/

namespace Arbor.Cache.Key

theorem toDigits_inj {m n : Nat} : Nat.toDigits 10 m = Nat.toDigits 10 n ↔ m = n := by
  refine ⟨fun same => ?_, congrArg (Nat.toDigits 10)⟩
  have number := congrArg (fun ds => Nat.ofDigitChars 10 ds 0) same
  simpa using number

/-- The first number of a text is found again, if no digit follows it. -/
theorem toDigits_append_inj {m n : Nat} {a b : Char} {rest others : List Char}
    (ha : a.isDigit = false) (hb : b.isDigit = false) :
    Nat.toDigits 10 m ++ a :: rest = Nat.toDigits 10 n ++ b :: others ↔
      m = n ∧ a :: rest = b :: others := by
  have digits : ∀ n, ∀ c ∈ Nat.toDigits 10 n, c.isDigit = true :=
    fun n c mem => Nat.isDigit_of_mem_toDigits (by decide) (by decide) mem
  have taken : ∀ (n : Nat) {c : Char} (cs : List Char), c.isDigit = false →
      (Nat.toDigits 10 n ++ c :: cs).takeWhile Char.isDigit = Nat.toDigits 10 n := by
    intro n c cs stop
    rw [List.takeWhile_append_of_pos (digits n)]
    simp [stop]
  constructor
  · intro h
    have same : Nat.toDigits 10 m = Nat.toDigits 10 n := by
      rw [← taken m rest ha, h, taken n others hb]
    rw [same] at h
    exact ⟨toDigits_inj.1 same, List.append_cancel_left h⟩
  · rintro ⟨rfl, h⟩
    rw [h]

theorem toList_treeEntry (key : Key) : key.treeEntry.toList =
    "tree_".toList ++ (Nat.toDigits 10 key.geometry.treeDepth ++
      '_' :: (Nat.toDigits 10 key.featureCount ++ ".json".toList)) := by
  delta treeEntry
  simp only [String.toList_append, List.append_assoc, Nat.toString_eq_ofList_toDigits,
    String.toList_ofList]
  rfl

theorem toList_moduleEntry (key : Key) : key.moduleEntry.toList =
    "evaluators_".toList ++ (Nat.toDigits 10 key.geometry.treeDepth ++
      '_' :: (Nat.toDigits 10 key.featureCount ++
        '_' :: (Nat.toDigits 10 key.geometry.functionDepth ++
          '_' :: (Nat.toDigits 10 key.geometry.switchDepth ++ ".json".toList)))) := by
  delta moduleEntry
  simp only [String.toList_append, List.append_assoc, Nat.toString_eq_ofList_toDigits,
    String.toList_ofList]
  rfl

variable {key other : Key}

/-- A tree entry belongs to all keys with one depth and one feature count. -/
theorem treeEntry_inj : key.treeEntry = other.treeEntry ↔
    key.geometry.treeDepth = other.geometry.treeDepth ∧
      key.featureCount = other.featureCount := by
  rw [← String.toList_inj, toList_treeEntry, toList_treeEntry, List.append_cancel_left_eq,
    toDigits_append_inj (by decide) (by decide)]
  refine and_congr_right fun _ => ?_
  rw [List.cons.injEq, show ".json".toList = '.' :: "json".toList by decide,
    toDigits_append_inj (by decide) (by decide)]
  simp

/-- A module entry belongs to one key. -/
theorem moduleEntry_inj : key.moduleEntry = other.moduleEntry ↔ key = other := by
  obtain ⟨⟨treeDepth, functionDepth, switchDepth⟩, featureCount⟩ := key
  obtain ⟨⟨treeDepth', functionDepth', switchDepth'⟩, featureCount'⟩ := other
  have point : ".json".toList = '.' :: "json".toList := by decide
  rw [← String.toList_inj, toList_moduleEntry, toList_moduleEntry, List.append_cancel_left_eq,
    point]
  simp only [toDigits_append_inj (show '_'.isDigit = false by decide)
    (show '_'.isDigit = false by decide), toDigits_append_inj (show '.'.isDigit = false by decide)
    (show '.'.isDigit = false by decide), List.cons.injEq, true_and, and_true, Key.mk.injEq,
    Geometry.mk.injEq]
  tauto

theorem treeEntry_ne_moduleEntry (key other : Key) : key.treeEntry ≠ other.moduleEntry := by
  intro h
  have initial := congrArg (·.toList.head?) h
  have tree : "tree_".toList = 't' :: "ree_".toList := by decide
  have module : "evaluators_".toList = 'e' :: "valuators_".toList := by decide
  simp only [toList_treeEntry, toList_moduleEntry, tree, module, List.cons_append,
    List.head?_cons, Option.some.injEq] at initial
  exact absurd initial (by decide)

end Arbor.Cache.Key
