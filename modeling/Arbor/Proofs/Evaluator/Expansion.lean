import Arbor.Proofs.Evaluator.Partition

/-!
# The order of variants

Free bits are varied one after the other, each set before it is left clear. So the variants of a
path count down: the free bits of a variant are the inverted digits of its number, with the first
free bit as the leading digit.

## Main definitions

* `IsVariant`: a vector is the variant with a number.

## Main statements

* `getElem?_vary`: the variants in their order.
* `variants_exact`: all variants of a path, with their numbers.
-/

namespace Arbor.Evaluator

open PathBits

/-- Free bits are set where the number has a zero, counted from its leading digit. Other bits are
those of the vector that is varied. -/
structure IsVariant (vector : Nat) (free : List Nat) (number variant : Nat) : Prop where
  free_eq : ∀ j bit, free[j]? = some bit →
    variant.testBit bit = !number.testBit (free.length - 1 - j)
  other_eq : ∀ i, i ∉ free → variant.testBit i = vector.testBit i

section IsVariant

variable {vector bit number variant : Nat} {rest : List Nat}

/-- In the first half of the variants the first free bit is set. -/
theorem IsVariant.cons_set (fresh : bit ∉ rest) (less : number < 2 ^ rest.length)
    (h : IsVariant (vector ||| 2 ^ bit) rest number variant) :
    IsVariant vector (bit :: rest) number variant := by
  constructor
  · intro j other at_j
    cases j with
    | zero =>
      obtain rfl : bit = other := by simpa using at_j
      simp [h.other_eq bit fresh, Nat.testBit_lt_two_pow less]
    | succ j =>
      rw [h.free_eq j other (by simpa using at_j), List.length_cons]
      congr 2
      omega
  · intro i out
    obtain ⟨ne, out⟩ : i ≠ bit ∧ i ∉ rest := by simpa using out
    simp [h.other_eq i out, ne.symm]

/-- In the second half it is clear. -/
theorem IsVariant.cons_clear (fresh : bit ∉ rest) (clear : vector.testBit bit = false)
    (less : number < 2 ^ rest.length) (h : IsVariant vector rest number variant) :
    IsVariant vector (bit :: rest) (2 ^ rest.length + number) variant := by
  constructor
  · intro j other at_j
    cases j with
    | zero =>
      obtain rfl : bit = other := by simpa using at_j
      simp [h.other_eq bit fresh, clear, Nat.testBit_two_pow_add_eq, Nat.testBit_lt_two_pow less]
    | succ j =>
      have inside := (List.getElem?_eq_some_iff.1 at_j).1
      rw [List.length_cons] at inside ⊢
      rw [h.free_eq j other (by simpa using at_j), Nat.testBit_two_pow_add_gt (by omega)]
      congr 2
      omega
  · intro i out
    exact h.other_eq i fun inside => out (by simp [inside])

end IsVariant

/-- The variants in their order, by induction on the free bits: the first one decides about the half
that a number is in. -/
theorem getElem?_vary {vector number : Nat} {free : List Nat} (distinct : free.Nodup)
    (clear : ∀ bit ∈ free, vector.testBit bit = false) (less : number < 2 ^ free.length) :
    ∃ variant, (vary vector free)[number]? = some variant ∧
      IsVariant vector free number variant := by
  induction free generalizing vector number with
  | nil =>
    obtain rfl : number = 0 := by simpa using less
    exact ⟨vector, rfl, by simp, fun _ _ => rfl⟩
  | cons bit rest ih =>
    obtain ⟨fresh, distinct⟩ := List.nodup_cons.1 distinct
    obtain ⟨unset, clear⟩ := List.forall_mem_cons.1 clear
    rw [List.length_cons, Nat.pow_succ] at less
    rw [vary, Nat.pow_eq]
    rcases Nat.lt_or_ge number (2 ^ rest.length) with low | high
    · obtain ⟨variant, found, h⟩ := ih distinct (clear_or fresh clear) low
      refine ⟨variant, ?_, h.cons_set fresh low⟩
      rw [List.getElem?_append_left (by rwa [length_vary]), found]
    · obtain ⟨later, rfl⟩ := Nat.exists_eq_add_of_le high
      obtain ⟨variant, found, h⟩ := ih distinct clear (show later < 2 ^ rest.length by omega)
      refine ⟨variant, ?_, h.cons_clear fresh unset (by omega)⟩
      rw [List.getElem?_append_right (by rw [length_vary]; omega), length_vary,
        Nat.add_sub_cancel_left, found]

/-- There is one way to list the free bits in increasing order. -/
theorem eq_freeBits {conditionBits : Nat} {bits : PathBits} {free : List Nat}
    (ascending : free.Pairwise (· < ·))
    (listed : ∀ i, i ∈ free ↔ i < conditionBits ∧ ∀ value, (i, value) ∉ bits) :
    free = freeBits conditionBits bits := by
  have same : free.Perm (freeBits conditionBits bits) := by
    refine (List.perm_ext_iff_of_nodup (ascending.imp Nat.ne_of_lt) (nodup_freeBits _ _)).2 ?_
    exact fun i => (listed i).trans mem_freeBits.symm
  refine same.eq_of_pairwise (fun i j _ _ less more => ?_) ascending
    (List.pairwise_lt_range.filter _)
  exact absurd (less.trans more) (Nat.lt_irrefl i)

/-- The requirements of a path are a map from bits to outcomes. With at most 64 condition bits, of
which at most 63 are free, its variants are made without a fault: no bit is varied twice, and their
number is the planned one. They come in the order of their numbers, none is repeated, and they are
the vectors that agree with the path and have no bit that is neither required nor a condition
bit. -/
theorem variants_exact {conditionBits : Nat} {bits : PathBits} {free : List Nat}
    (few : conditionBits ≤ 64) (sorted : Sorted bits) (keys : ∀ entry ∈ bits, entry.1 < 64)
    (ascending : free.Pairwise (· < ·))
    (listed : ∀ i, i ∈ free ↔ i < conditionBits ∧ ∀ value, (i, value) ∉ bits)
    (short : free.length ≤ 63) :
    ∃ template vectors, fixedTemplate bits = .ok template ∧
      (∀ i, template.testBit i = true ↔ (i, true) ∈ bits) ∧
      variants conditionBits bits = .ok vectors ∧
      vectors.length = 2 ^ free.length ∧
      (∀ number < 2 ^ free.length, ∃ variant, vectors[number]? = some variant ∧
        IsVariant template free number variant) ∧
      vectors.Nodup ∧
      ∀ vector, vector ∈ vectors ↔ vector < 2 ^ 64 ∧ Agrees vector bits ∧
        ∀ i, conditionBits ≤ i → (∀ value, (i, value) ∉ bits) → vector.testBit i = false := by
  obtain rfl := eq_freeBits ascending listed
  obtain ⟨template, read, set, made⟩ := variants_eq few keys (Nat.lt_succ_of_le short)
  have clear : ∀ bit ∈ freeBits conditionBits bits, template.testBit bit = false :=
    clear_of_freeBits set
  refine ⟨template, _, read, set, made, length_vary _ _, ?_, ?_, fun vector => ?_⟩
  · exact fun number less => getElem?_vary (nodup_freeBits _ _) clear less
  · exact nodup_vary (nodup_freeBits _ _) clear
  · rw [mem_vary_template sorted set]
    refine ⟨fun ⟨agrees, rest⟩ => ⟨?_, agrees, rest⟩, fun ⟨_, agrees, rest⟩ => ⟨agrees, rest⟩⟩
    -- from bit 64 on nothing is required and nothing is free
    refine Nat.lt_pow_two_of_testBit _ fun i high => rest i (few.trans high) fun value he => ?_
    exact absurd (keys _ he) (Nat.not_lt.2 high)

/-- The leading bit of a word is required, so that 63 bits are free. In the last of their variants
none of them is set. -/
theorem variants_exact_leading : Sorted [(63, true)] ∧ ∃ vectors,
    variants 64 [(63, true)] = .ok vectors ∧ vectors.length = 2 ^ 63 ∧ vectors.Nodup ∧
    vectors[2 ^ 63 - 1]? = some (2 ^ 63) := by
  have sorted : Sorted [(63, true)] := List.pairwise_singleton _ _
  obtain ⟨template, vectors, read, -, made, length, order, distinct, -⟩ :=
    @variants_exact 64 [(63, true)] (List.range 63) (Nat.le_refl _) sorted (by decide)
      List.pairwise_lt_range (fun i => by simp; omega) (by decide)
  have leading : fixedTemplate [(63, true)] = .ok (2 ^ 63) := rfl
  obtain rfl := Except.ok.inj (leading.symm.trans read)
  obtain ⟨variant, found, last⟩ := order (2 ^ 63 - 1) (by decide)
  obtain rfl : variant = 2 ^ 63 := by
    refine Nat.eq_of_testBit_eq fun i => ?_
    by_cases low : i < 63
    · rw [last.free_eq i i (by simp [low]), Nat.testBit_two_pow_sub_one, Nat.testBit_two_pow,
        List.length_range, decide_eq_true (show 63 - 1 - i < 63 by omega), decide_eq_false low.ne']
      rfl
    · exact last.other_eq i (by simpa using low)
  exact ⟨sorted, vectors, made, length, distinct, found⟩

end Arbor.Evaluator
