import Arbor.Evaluator.Variant
import Arbor.Proofs.Outcome
import Mathlib.Data.List.Nodup
import Mathlib.Data.Nat.Bitwise

/-!
# Variants are the vectors that agree

The variants of a path are exactly the vectors that have its required bits and nothing above the
condition bits.

## Main definitions

* `PathBits.Agrees`: a vector has the required bits.
* `PathBits.Sorted`: the required bits come in increasing order, so each is required once.

## Main statements

* `Bounded.vary_eq`: no bit is varied twice.
* `variants_eq`: what the variants of a path are made of.
* `mem_vary_template`, `mem_variants`: membership in the variants of a path.
* `length_variants`, `nodup_variants`: how many variants a path has, and that none is repeated.
-/

namespace Arbor.Evaluator

namespace PathBits

def Agrees (vector : Nat) (bits : PathBits) : Prop :=
  ∀ entry ∈ bits, vector.testBit entry.1 = entry.2

def Sorted (bits : PathBits) : Prop := bits.Pairwise fun a b => a.1 < b.1

@[simp] theorem agrees_nil (vector : Nat) : Agrees vector [] := by simp [Agrees]

@[simp] theorem agrees_cons {vector bit : Nat} {value : Bool} {rest : PathBits} :
    Agrees vector ((bit, value) :: rest) ↔ vector.testBit bit = value ∧ Agrees vector rest := by
  simp [Agrees]

theorem contains_iff {bits : PathBits} {bit : Nat} :
    bits.contains bit = true ↔ ∃ value, (bit, value) ∈ bits := by
  simp [contains]

/-- A bit below all others goes to the front. -/
theorem insert_of_lt {bit : Nat} {value : Bool} {bits : PathBits}
    (below : ∀ entry ∈ bits, bit < entry.1) : insert bit value bits = (bit, value) :: bits := by
  cases bits with
  | nil => rfl
  | cons entry rest =>
    have := below entry (by simp)
    simp [insert, this]

end PathBits

open PathBits

theorem fixedTemplate_eq {bits : PathBits} (small : ∀ entry ∈ bits, entry.1 < 64) :
    ∃ vector, fixedTemplate bits = .ok vector ∧
      ∀ i, vector.testBit i = true ↔ (i, true) ∈ bits := by
  induction bits with
  | nil => exact ⟨0, rfl, by simp⟩
  | cons entry rest ih =>
    obtain ⟨bit, value⟩ := entry
    obtain ⟨vector, read, set⟩ := ih fun e he => small e (by simp [he])
    have hbit : bit < 64 := small (bit, value) (by simp)
    refine ⟨if value then 2 ^ bit ||| vector else vector, ?_, ?_⟩
    · simp [fixedTemplate, Word.bit_of_lt hbit, read]
    · intro i
      cases value
      · simp [set]
      · simp only [↓reduceIte, Nat.testBit_or, Nat.testBit_two_pow, Bool.or_eq_true,
          decide_eq_true_eq, set, List.mem_cons, Prod.mk.injEq, and_true]
        exact or_congr_left eq_comm

theorem mem_freeBits {conditionBits i : Nat} {bits : PathBits} :
    i ∈ freeBits conditionBits bits ↔ i < conditionBits ∧ ∀ value, (i, value) ∉ bits := by
  rw [freeBits, List.mem_filter, List.mem_range]
  simp only [Bool.not_eq_true', ← Bool.not_eq_true, contains_iff, not_exists]

theorem nodup_freeBits (conditionBits : Nat) (bits : PathBits) :
    (freeBits conditionBits bits).Nodup := List.nodup_range.filter _

theorem length_vary (vector : Nat) (free : List Nat) :
    (vary vector free).length = 2 ^ free.length := by
  induction free generalizing vector with
  | nil => rfl
  | cons bit rest ih =>
    rw [vary, List.length_append, ih, ih, List.length_cons, Nat.pow_succ]
    omega

/-- Setting a bit leaves the others clear. -/
theorem clear_or {vector bit : Nat} {rest : List Nat} (fresh : bit ∉ rest)
    (clear : ∀ i ∈ rest, vector.testBit i = false) :
    ∀ i ∈ rest, (vector ||| 2 ^ bit).testBit i = false := by
  intro i hi
  have ne : bit ≠ i := fun e => fresh (e ▸ hi)
  simp [ne, clear i hi]

/-- As long as the free bits differ and are clear, no bit is varied twice. -/
theorem Bounded.vary_eq {vector : Nat} {free : List Nat} (words : ∀ bit ∈ free, bit < 64)
    (distinct : free.Nodup) (clear : ∀ bit ∈ free, vector.testBit bit = false) :
    Bounded.vary vector free = .ok (Evaluator.vary vector free) := by
  induction free generalizing vector with
  | nil => rfl
  | cons bit rest ih =>
    obtain ⟨fresh, distinct⟩ := List.nodup_cons.1 distinct
    obtain ⟨word, words⟩ := List.forall_mem_cons.1 words
    obtain ⟨unset, clear⟩ := List.forall_mem_cons.1 clear
    have apart : vector &&& 2 ^ bit = 0 := by simp [Nat.and_two_pow, unset]
    simp [Bounded.vary, Word.bit_of_lt word, apart, ih words distinct (clear_or fresh clear),
      ih words distinct clear, Evaluator.vary]

theorem Bounded.vary_eq_ok {vector : Nat} {free vectors : List Nat}
    (h : Bounded.vary vector free = .ok vectors) : vectors = Evaluator.vary vector free := by
  induction free generalizing vector vectors with
  | nil => exact (Except.ok.inj h).symm
  | cons bit rest ih =>
    obtain ⟨mask, read, h⟩ := bind_eq_ok.1 h
    obtain rfl : 2 ^ bit = mask := by
      rw [Word.bit] at read
      split at read
      · exact Except.ok.inj read
      · cases read
    split at h
    · cases h
    · obtain ⟨whenSet, first, h⟩ := bind_eq_ok.1 h
      obtain ⟨whenClear, second, h⟩ := bind_eq_ok.1 h
      rw [← Except.ok.inj h, ih first, ih second]
      rfl

/-- Varying free bits gives the vectors that differ from the given one in free bits only. -/
theorem mem_vary {vector candidate : Nat} {free : List Nat} (distinct : free.Nodup)
    (clear : ∀ bit ∈ free, vector.testBit bit = false) :
    candidate ∈ vary vector free ↔
      ∀ i, i ∉ free → candidate.testBit i = vector.testBit i := by
  induction free generalizing vector with
  | nil =>
    simp only [vary, List.mem_singleton, List.not_mem_nil, not_false_eq_true, forall_const]
    exact ⟨fun h i => h ▸ rfl, Nat.eq_of_testBit_eq⟩
  | cons bit rest ih =>
    obtain ⟨fresh, distinct⟩ := List.nodup_cons.1 distinct
    have clearBit : vector.testBit bit = false := clear bit (by simp)
    have whenSet : ∀ i, (vector ||| 2 ^ bit).testBit i = (vector.testBit i || decide (bit = i)) :=
      fun i => by simp [Nat.testBit_two_pow]
    rw [vary, List.mem_append, Nat.pow_eq, ih distinct, ih distinct]
    · constructor
      · rintro (h | h) i hi
        · have ne : bit ≠ i := fun e => hi (by simp [e])
          simpa [whenSet, ne] using h i fun m => hi (by simp [m])
        · exact h i fun m => hi (by simp [m])
      · intro h
        -- the free bit itself decides on which side the candidate is
        cases set : candidate.testBit bit
        · refine .inr fun i hi => ?_
          by_cases e : i = bit
          · rw [e, set, clearBit]
          · exact h i (by simp [e, hi])
        · refine .inl fun i hi => ?_
          by_cases e : i = bit
          · simp [whenSet, e, set]
          · simpa [whenSet, Ne.symm e] using h i (by simp [e, hi])
    · exact fun i hi => clear i (by simp [hi])
    · exact clear_or fresh fun i hi => clear i (by simp [hi])

theorem PathBits.Sorted.value_eq {bits : PathBits} (sorted : Sorted bits) {bit : Nat} {a b : Bool}
    (ha : (bit, a) ∈ bits) (hb : (bit, b) ∈ bits) : a = b := by
  have distinct : (bits.map Prod.fst).Nodup :=
    List.Pairwise.map _ (fun _ _ less => Nat.ne_of_lt less) sorted
  have := List.inj_on_of_nodup_map distinct ha hb rfl
  exact congrArg Prod.snd this

/-- Free bits are clear in the template. -/
theorem clear_of_freeBits {conditionBits template : Nat} {bits : PathBits}
    (set : ∀ i, template.testBit i = true ↔ (i, true) ∈ bits) :
    ∀ bit ∈ freeBits conditionBits bits, template.testBit bit = false := by
  intro bit free
  rw [← Bool.not_eq_true, set]
  exact (mem_freeBits.1 free).2 true

/-- The variants of a path exist, and they vary the free bits of its template. -/
theorem variants_eq {conditionBits : Nat} {bits : PathBits} (few : conditionBits ≤ 64)
    (small : ∀ entry ∈ bits, entry.1 < 64)
    (short : (freeBits conditionBits bits).length < 64) :
    ∃ template, fixedTemplate bits = .ok template ∧
      (∀ i, template.testBit i = true ↔ (i, true) ∈ bits) ∧
      variants conditionBits bits = .ok (vary template (freeBits conditionBits bits)) := by
  obtain ⟨template, read, set⟩ := fixedTemplate_eq small
  have words : ∀ bit ∈ freeBits conditionBits bits, bit < 64 :=
    fun bit free => (mem_freeBits.1 free).1.trans_le few
  have varied := Bounded.vary_eq words (nodup_freeBits conditionBits bits) (clear_of_freeBits set)
  refine ⟨template, read, set, ?_⟩
  simp [variants, Word.bit_of_lt short, read, varied, length_vary]

/-- Varying the free bits of a template gives the vectors that agree with the path and have no bit
that is neither free nor required. -/
theorem mem_vary_template {conditionBits template candidate : Nat} {bits : PathBits}
    (sorted : Sorted bits) (set : ∀ i, template.testBit i = true ↔ (i, true) ∈ bits) :
    candidate ∈ vary template (freeBits conditionBits bits) ↔ Agrees candidate bits ∧
      ∀ i, conditionBits ≤ i → (∀ value, (i, value) ∉ bits) → candidate.testBit i = false := by
  -- the template has the required outcomes, and no bit that is not required
  have required : ∀ entry ∈ bits, template.testBit entry.1 = entry.2 := by
    rintro ⟨bit, value⟩ he
    cases value
    · rw [← Bool.not_eq_true, set]
      exact fun ht => Bool.noConfusion (sorted.value_eq ht he)
    · exact (set bit).2 he
  have unset : ∀ i, (∀ value, (i, value) ∉ bits) → template.testBit i = false := by
    intro i out
    rw [← Bool.not_eq_true, set]
    exact out true
  rw [mem_vary (nodup_freeBits _ _) (clear_of_freeBits set)]
  constructor
  · intro same
    refine ⟨fun entry he => ?_, fun i high out => ?_⟩
    · rw [same entry.1 fun free => (mem_freeBits.1 free).2 entry.2 he, required entry he]
    · rw [same i fun free => absurd (mem_freeBits.1 free).1 (Nat.not_lt.2 high), unset i out]
  · rintro ⟨agrees, rest⟩ i hi
    by_cases he : ∃ value, (i, value) ∈ bits
    · obtain ⟨value, he⟩ := he
      rw [agrees _ he, required _ he]
    · have out := not_exists.1 he
      have high : conditionBits ≤ i :=
        Nat.le_of_not_lt fun low => hi (mem_freeBits.2 ⟨low, out⟩)
      rw [rest i high out, unset i out]

/-- The variants of a path exist, and they are the vectors that agree with it. -/
theorem mem_variants {conditionBits : Nat} {bits : PathBits} (small : conditionBits < 64)
    (sorted : Sorted bits) (inside : ∀ entry ∈ bits, entry.1 < conditionBits) :
    ∃ vectors, variants conditionBits bits = .ok vectors ∧
      ∀ candidate, candidate ∈ vectors ↔ candidate < 2 ^ conditionBits ∧ Agrees candidate bits := by
  have few : (freeBits conditionBits bits).length < 64 :=
    Nat.lt_of_le_of_lt (List.length_filter_le _ _) (by simpa using small)
  obtain ⟨template, -, set, made⟩ :=
    variants_eq small.le (fun e he => (inside e he).trans small) few
  refine ⟨_, made, fun candidate => ?_⟩
  rw [mem_vary_template sorted set, and_comm]
  refine and_congr_left fun _ => ⟨fun rest => ?_, fun less i high _ => ?_⟩
  · refine Nat.lt_pow_two_of_testBit _ fun i high => rest i high fun value he => ?_
    exact absurd (inside _ he) (Nat.not_lt.2 high)
  · exact Nat.testBit_lt_two_pow (less.trans_le (Nat.pow_le_pow_right Nat.two_pos high))

/-! ## Counting variants -/

theorem nodup_vary {vector : Nat} {free : List Nat} (distinct : free.Nodup)
    (clear : ∀ bit ∈ free, vector.testBit bit = false) : (vary vector free).Nodup := by
  induction free generalizing vector with
  | nil => exact List.nodup_singleton vector
  | cons bit rest ih =>
    obtain ⟨fresh, distinct⟩ := List.nodup_cons.1 distinct
    have clearRest : ∀ i ∈ rest, vector.testBit i = false := fun i hi => clear i (by simp [hi])
    have clearSet : ∀ i ∈ rest, (vector ||| 2 ^ bit).testBit i = false := clear_or fresh clearRest
    rw [vary, Nat.pow_eq]
    refine List.nodup_append.2 ⟨ih distinct clearSet, ih distinct clearRest, ?_⟩
    -- vectors of the two halves differ in the bit that was varied
    rintro a ha b hb rfl
    have set := (mem_vary distinct clearSet).1 ha bit fresh
    have unset := (mem_vary distinct clearRest).1 hb bit fresh
    rw [unset, clear bit (by simp)] at set
    simp at set

/-- Every bit below the condition bits is required or free. -/
theorem length_freeBits {conditionBits : Nat} {bits : PathBits} (sorted : Sorted bits)
    (inside : ∀ entry ∈ bits, entry.1 < conditionBits) :
    (freeBits conditionBits bits).length + bits.length = conditionBits := by
  have distinct : (bits.map Prod.fst).Nodup :=
    List.Pairwise.map _ (fun _ _ less => Nat.ne_of_lt less) sorted
  have required : ((List.range conditionBits).filter bits.contains).Perm (bits.map Prod.fst) := by
    apply (List.perm_ext_iff_of_nodup (List.nodup_range.filter _) distinct).2
    intro bit
    rw [List.mem_filter, List.mem_range, contains_iff, List.mem_map]
    constructor
    · rintro ⟨-, value, he⟩
      exact ⟨_, he, rfl⟩
    · rintro ⟨⟨bit, value⟩, he, rfl⟩
      exact ⟨inside _ he, value, he⟩
  have parts := List.length_eq_length_filter_add (l := List.range conditionBits) bits.contains
  rw [List.length_range, required.length_eq, List.length_map] at parts
  rw [freeBits]
  omega

/-- What the variants of a path are made of. -/
theorem variants_eq_ok {conditionBits : Nat} {bits : PathBits} {vectors : List Nat}
    (h : variants conditionBits bits = .ok vectors) :
    ∃ template, fixedTemplate bits = .ok template ∧
      vectors = vary template (freeBits conditionBits bits) := by
  obtain ⟨_, -, h⟩ := bind_eq_ok.1 h
  obtain ⟨template, read, h⟩ := bind_eq_ok.1 h
  obtain ⟨varied, made, h⟩ := bind_eq_ok.1 h
  refine ⟨template, read, ?_⟩
  split at h
  · cases h
  · rw [← Except.ok.inj h, Bounded.vary_eq_ok made]

theorem length_variants {conditionBits : Nat} {bits : PathBits} {vectors : List Nat}
    (h : variants conditionBits bits = .ok vectors) (sorted : Sorted bits)
    (inside : ∀ entry ∈ bits, entry.1 < conditionBits) :
    vectors.length = 2 ^ (conditionBits - bits.length) := by
  obtain ⟨template, -, rfl⟩ := variants_eq_ok h
  have count := length_freeBits sorted inside
  rw [length_vary]
  congr 1
  omega

theorem nodup_variants {conditionBits : Nat} {bits : PathBits} {vectors : List Nat}
    (h : variants conditionBits bits = .ok vectors) (small : ∀ entry ∈ bits, entry.1 < 64) :
    vectors.Nodup := by
  obtain ⟨template, read, rfl⟩ := variants_eq_ok h
  obtain ⟨same, again, set⟩ := fixedTemplate_eq small
  obtain rfl := Except.ok.inj (read.symm.trans again)
  exact nodup_vary (nodup_freeBits conditionBits bits) (clear_of_freeBits set)

end Arbor.Evaluator
