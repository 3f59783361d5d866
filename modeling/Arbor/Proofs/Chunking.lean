import Arbor.Config
import Arbor.Proofs.Build.Faithful
import Mathlib.Order.Bounds.Basic

/-!
# Chunkings in place of others

A chunking that does not suit a tree is replaced by one that does. The switch depth of the new one
divides the depth of the tree, so it is itself a function depth that suits, and the search for the
largest one cannot come back with nothing.

## Main statements

* `Config.find?_reverse_range'`: a search from above finds the largest number.
* `Config.fallbackSwitch_suits`, `Config.fallbackFunction_isGreatest`: both parts of the chunking.
* `Config.Bounded.fallbackChunking_eq`: the search does not leave the words.
* `Config.fallbackChunking_deepest`: the chunking is valid and the deepest one that is allowed.
-/

namespace Arbor.Config

/-- A search from above finds the largest number, if there is one. -/
theorem find?_reverse_range' {p : Nat → Bool} {first count candidate : Nat}
    (inside : first ≤ candidate ∧ candidate < first + count) (suits : p candidate = true) :
    ∃ n, (List.range' first count).reverse.find? p = some n ∧
      IsGreatest {m | (first ≤ m ∧ m < first + count) ∧ p m = true} n := by
  induction count with
  | zero => omega
  | succ count ih =>
    rw [List.range'_1_concat, List.reverse_append, List.reverse_singleton, List.singleton_append,
      List.find?_cons]
    cases last : p (first + count) with
    | true =>
      refine ⟨_, rfl, ⟨⟨by omega, by omega⟩, last⟩, ?_⟩
      rintro m ⟨⟨-, below⟩, -⟩
      omega
    | false =>
      have earlier {m : Nat} (within : first ≤ m ∧ m < first + (count + 1)) (hm : p m = true) :
          first ≤ m ∧ m < first + count := by
        have : m ≠ first + count := by
          rintro rfl
          simp [last] at hm
        omega
      obtain ⟨n, found, ⟨⟨low, high⟩, hn⟩, greatest⟩ := ih (earlier inside suits)
      exact ⟨n, found, ⟨⟨low, by omega⟩, hn⟩, fun m hm => greatest ⟨earlier hm.1 hm.2, hm.2⟩⟩

variable {depth functionDepth switchDepth switch : Nat}

/-! ## Switches -/

/-- The switch depth is kept if it can be. -/
theorem fallbackSwitch_eq : (fallbackChunking depth functionDepth switchDepth).2 =
    if 1 ≤ switchDepth ∧ switchDepth ≤ maxSwitchDepth ∧ switchDepth ∣ depth then switchDepth
    else 1 := by
  simp only [fallbackChunking, Nat.dvd_iff_mod_eq_zero]

theorem fallbackSwitch_suits :
    (1 ≤ (fallbackChunking depth functionDepth switchDepth).2 ∧
      (fallbackChunking depth functionDepth switchDepth).2 ≤ maxSwitchDepth) ∧
    (fallbackChunking depth functionDepth switchDepth).2 ∣ depth := by
  rw [fallbackSwitch_eq]
  split
  · next kept => exact ⟨⟨kept.1, kept.2.1⟩, kept.2.2⟩
  · exact ⟨by decide, Nat.one_dvd depth⟩

theorem Bounded.fallbackSwitch_eq : fallbackSwitch depth switchDepth =
    .ok (Config.fallbackChunking depth functionDepth switchDepth).2 := by
  simp only [Config.fallbackChunking, fallbackSwitch]
  by_cases possible : 1 ≤ switchDepth ∧ switchDepth ≤ maxSwitchDepth
  · simp [possible, Word.rem_of_pos (Nat.lt_of_lt_of_le Nat.one_pos possible.1)]
  · rw [if_neg possible, if_neg fun kept => possible ⟨kept.1, kept.2.1⟩]

/-! ## Functions -/

def candidates (depth functionDepth switch : Nat) : List Nat :=
  (List.range' switch (max switch (min functionDepth depth) + 1 - switch)).reverse

theorem mem_candidates {f : Nat} : f ∈ candidates depth functionDepth switch ↔
    switch ≤ f ∧ f ≤ max switch (min functionDepth depth) := by
  rw [candidates, List.mem_reverse, List.mem_range'_1]
  omega

/-- The switch depth itself is a candidate, so that there always is a largest one. -/
theorem find?_candidates (pos : 0 < depth) (divides : switch ∣ depth) :
    ∃ n, (candidates depth functionDepth switch).find?
        (fun f => depth % f = 0 && f % switch = 0) = some n ∧
      IsGreatest {f | f ≤ max (min functionDepth depth) switch ∧ f ∣ depth ∧ switch ∣ f} n := by
  have least := Nat.le_max_left switch (min functionDepth depth)
  obtain ⟨n, found, ⟨⟨low, high⟩, suits⟩, greatest⟩ := @find?_reverse_range'
    (fun f => depth % f = 0 && f % switch = 0) switch
    (max switch (min functionDepth depth) + 1 - switch) switch ⟨Nat.le_refl _, by omega⟩
    (by simpa using Nat.mod_eq_zero_of_dvd divides)
  simp only [Bool.and_eq_true, decide_eq_true_eq, ← Nat.dvd_iff_mod_eq_zero] at suits
  refine ⟨n, found, ⟨by omega, suits⟩, ?_⟩
  rintro f ⟨shallow, chunks, steps⟩
  have above : switch ≤ f := Nat.le_of_dvd (Nat.pos_of_dvd_of_pos chunks pos) steps
  exact greatest ⟨⟨above, by omega⟩, by simp [Nat.mod_eq_zero_of_dvd, chunks, steps]⟩

theorem Bounded.suits_eq {f : Nat} (function : 0 < f) (positive : 0 < switch) :
    suits depth switch f = .ok (depth % f = 0 && f % switch = 0) := by
  by_cases chunks : depth % f = 0
  · simp [suits, Word.rem_of_pos function, Word.rem_of_pos positive, chunks]
    rfl
  · simp [suits, Word.rem_of_pos function, chunks]

theorem Bounded.deepest?_eq (positive : 0 < switch) (shallow : switch ≤ depth) :
    deepest? depth functionDepth switch = .ok ((candidates depth functionDepth switch).find?
      fun f => depth % f = 0 && f % switch = 0) := by
  rw [deepest?, Word.clamp_of_le shallow, ok_bind]
  apply findM?_eq_ok
  intro f member
  exact suits_eq (positive.trans_le (mem_candidates.1 member).1) positive

/-! ## Chunkings -/

theorem fallbackChunking_fst : (fallbackChunking depth functionDepth switchDepth).1 =
    ((candidates depth functionDepth (fallbackChunking depth functionDepth switchDepth).2).find?
      fun f => depth % f = 0 && f % (fallbackChunking depth functionDepth switchDepth).2 = 0).getD
        depth := rfl

theorem fallbackFunction_isGreatest (pos : 0 < depth) :
    IsGreatest {f | f ≤ max (min functionDepth depth)
        (fallbackChunking depth functionDepth switchDepth).2 ∧ f ∣ depth ∧
      (fallbackChunking depth functionDepth switchDepth).2 ∣ f}
      (fallbackChunking depth functionDepth switchDepth).1 := by
  obtain ⟨n, found, greatest⟩ := @find?_candidates depth functionDepth _ pos
    (@fallbackSwitch_suits depth functionDepth switchDepth).2
  rwa [fallbackChunking_fst, found, Option.getD_some]

/-- The search finds the function depth. -/
theorem Bounded.deepest?_fallback (pos : 0 < depth) :
    deepest? depth functionDepth (Config.fallbackChunking depth functionDepth switchDepth).2 =
      .ok (some (Config.fallbackChunking depth functionDepth switchDepth).1) := by
  obtain ⟨⟨positive, -⟩, divides⟩ := @fallbackSwitch_suits depth functionDepth switchDepth
  obtain ⟨n, found, -⟩ := @find?_candidates depth functionDepth _ pos divides
  rw [deepest?_eq positive (Nat.le_of_dvd pos divides), fallbackChunking_fst, found,
    Option.getD_some]

theorem Bounded.fallbackChunking_eq (pos : 0 < depth) :
    fallbackChunking depth functionDepth switchDepth =
      .ok (Config.fallbackChunking depth functionDepth switchDepth) := by
  rw [fallbackChunking, @fallbackSwitch_eq depth functionDepth, ok_bind, deepest?_fallback pos]
  rfl

theorem fallbackChunking_valid (pos : 0 < depth) (shallow : depth ≤ maxTreeDepth)
    (functionDepth switchDepth : Nat) :
    Geometry.of depth (fallbackChunking depth functionDepth switchDepth).1
        (fallbackChunking depth functionDepth switchDepth).2 =
      .ok ⟨depth, (fallbackChunking depth functionDepth switchDepth).1,
        (fallbackChunking depth functionDepth switchDepth).2⟩ := by
  obtain ⟨-, chunks, steps⟩ :=
    (@fallbackFunction_isGreatest depth functionDepth switchDepth pos).1
  exact Geometry.of_eq_ok.2 ⟨rfl, ⟨pos, shallow⟩, Nat.pos_of_dvd_of_pos chunks pos,
    fallbackSwitch_suits.1, chunks, steps⟩

theorem fallbackChunking_le (pos : 0 < depth) :
    (fallbackChunking depth functionDepth switchDepth).1 ≤ depth ∧
      (fallbackChunking depth functionDepth switchDepth).2 ≤ maxSwitchDepth := by
  obtain ⟨-, chunks, -⟩ := (@fallbackFunction_isGreatest depth functionDepth switchDepth pos).1
  exact ⟨Nat.le_of_dvd pos chunks, fallbackSwitch_suits.1.2⟩

/-- Switches that are deeper than the functions should be make the functions as deep as they are. -/
theorem fallbackChunking_of_lt (pos : 0 < depth) (deeper : functionDepth < switchDepth)
    (narrow : switchDepth ≤ maxSwitchDepth) (divides : switchDepth ∣ depth) :
    fallbackChunking depth functionDepth switchDepth = (switchDepth, switchDepth) := by
  have kept : (fallbackChunking depth functionDepth switchDepth).2 = switchDepth := by
    rw [fallbackSwitch_eq, if_pos ⟨by omega, narrow, divides⟩]
  obtain ⟨shallow, chunks, steps⟩ :=
    (@fallbackFunction_isGreatest depth functionDepth switchDepth pos).1
  rw [kept] at shallow steps
  have least := Nat.le_of_dvd (Nat.pos_of_dvd_of_pos chunks pos) steps
  exact Prod.ext (by omega) kept

/-- Otherwise functions are not deeper than they should be. -/
theorem fallbackFunction_le (pos : 0 < depth) (positive : 1 ≤ functionDepth)
    (other : ¬ (functionDepth < switchDepth ∧ switchDepth ≤ maxSwitchDepth ∧
      switchDepth ∣ depth)) :
    (fallbackChunking depth functionDepth switchDepth).1 ≤ functionDepth := by
  have narrow : (fallbackChunking depth functionDepth switchDepth).2 ≤ functionDepth := by
    rw [fallbackSwitch_eq]
    split
    · next kept => exact Nat.not_lt.1 fun deeper => other ⟨deeper, kept.2⟩
    · exact positive
  obtain ⟨shallow, -⟩ := (@fallbackFunction_isGreatest depth functionDepth switchDepth pos).1
  omega

/-- For every tree depth and whatever the settings are, a chunking is found without a fault, and it
is valid. It keeps the switch depth if that divides the depth, and it has the deepest functions that
suit, up to the given depth or a single switch. The search for them never comes back with
nothing. -/
theorem fallbackChunking_deepest (pos : 1 ≤ depth) (shallow : depth ≤ 30)
    (functionDepth switchDepth : Nat) :
    ∃ function switch,
      Bounded.fallbackChunking depth functionDepth switchDepth = .ok (function, switch) ∧
      fallbackChunking depth functionDepth switchDepth = (function, switch) ∧
      Geometry.of depth function switch = .ok ⟨depth, function, switch⟩ ∧
      (switch = if 1 ≤ switchDepth ∧ switchDepth ≤ 4 ∧ switchDepth ∣ depth then switchDepth
        else 1) ∧
      IsGreatest {f | f ≤ max (min functionDepth depth) switch ∧ f ∣ depth ∧ switch ∣ f} function ∧
      Bounded.deepest? depth functionDepth switch = .ok (some function) := by
  refine ⟨_, _, Bounded.fallbackChunking_eq pos, rfl, ?_, ?_, ?_, ?_⟩
  · exact fallbackChunking_valid pos shallow functionDepth switchDepth
  · exact @fallbackSwitch_eq depth functionDepth switchDepth
  · exact fallbackFunction_isGreatest pos
  · exact Bounded.deepest?_fallback pos

/-- Functions of eight levels do not fill a tree of twelve, but six levels are three switches. -/
theorem fallbackChunking_deepest_twelve : Bounded.fallbackChunking 12 8 2 = .ok (6, 2) ∧
    Geometry.of 12 6 2 = .ok ⟨12, 6, 2⟩ ∧
    IsGreatest {f | f ≤ max (min 8 12) 2 ∧ f ∣ 12 ∧ 2 ∣ f} 6 := by
  obtain ⟨function, switch, chunked, same, valid, -, greatest, -⟩ :=
    @fallbackChunking_deepest 12 (by decide) (by decide) 8 2
  obtain ⟨rfl, rfl⟩ : 6 = function ∧ 2 = switch := Prod.mk.inj same
  exact ⟨chunked, valid, greatest⟩

end Arbor.Config
