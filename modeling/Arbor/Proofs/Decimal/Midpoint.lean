import Arbor.Json.Number
import Arbor.Proofs.Rounding
import Mathlib.Data.Nat.Cast.Field

/-!
# Decimals near a midpoint

Reading a decimal rounds twice, first to 64 and then to 32 bits. The second rounding can go wrong
only if the decimal `s * 10 ^ k` is extremely close to a midpoint `m * 2 ^ f` of two numbers of 32
bits. For each `f` this is a question about `s * a - m * b`, where `a / b` is the reduced fraction
`10 ^ k / 2 ^ f`. A convergent `s' / m'` of the continued fraction of `b / a` answers it: if its own
difference is small enough, then all pairs `(s, m)` of this kind are multiples of `(s', m')`. So
only few decimals are left, and reading these is checked.

The power `k` that is used for `f` is the least one with `10 ^ k` not below `2 ^ f`, up to a tiny
fraction; finer decimals do not come near a midpoint, and coarser ones are multiples of `10 ^ k`.

## Main definitions

* `Literal.reading`: the 64-bit number that a decimal is read as.
* `Decimal.faithful`: whether rounding twice gives the same bits as rounding once.
* `Decimal.certified`: the check for one `f`.

## Main statements

* `Decimal.all_certified`: the check succeeds for all midpoints.
* `Decimal.faithful_of_near`: a decimal near a midpoint is the midpoint or is read faithfully.
-/

namespace Arbor

/-- The 64-bit number that `significand * 10 ^ exponent` is read as. -/
def Json.Literal.reading (significand : Nat) (exponent : Int) : Binary :=
  if exponent < 0 then dividedBy (Format.double.round significand 1) (power exponent.natAbs)
  else times (Format.double.round significand 1) (power exponent.toNat)

namespace Decimal

/-- Whether the decimal has the same bits after two roundings as after one. -/
def faithful (significand : Nat) (exponent : Int) : Bool :=
  let read := Json.Literal.reading significand exponent
  Format.single.bits (Format.single.round read.numerator read.denominator) ==
    Format.single.bits (Format.single.round (significand * Nat.pow 10 exponent.toNat)
      (Nat.pow 10 (-exponent).toNat))

/-- The power of ten for midpoints that are multiples of `2 ^ f`. -/
def gridPower (f : Int) : Int := -(-f * 30103 / 100000)

/-- Numerator of the fraction `10 ^ gridPower f / 2 ^ f` before it is reduced. -/
def tens (f : Int) : Nat := Nat.pow 10 (gridPower f).toNat * Nat.pow 2 (-f).toNat

def twos (f : Int) : Nat := Nat.pow 2 f.toNat * Nat.pow 10 (-gridPower f).toNat

def num (f : Int) : Nat := tens f / Nat.gcd (tens f) (twos f)

def den (f : Int) : Nat := twos f / Nat.gcd (tens f) (twos f)

section Convergents

variable (a b : Nat)

def gap (s m : Nat) : Nat := (s * a - m * b) + (m * b - s * a)

/-- The greatest `s` for which `s * a / b` can be a midpoint of numbers with 24 bits. -/
def greatest : Nat := 2 ^ 25 * b / a

/-- Whether the pair tells all near pairs apart from the far ones. -/
def separates (s m : Nat) : Bool :=
  Nat.gcd s m == 1 && decide (0 < s) && decide (0 < gap a b s m) &&
    decide (s * b + 2 ^ 26 * (greatest a b * gap a b s m) < 2 ^ 26 * b)

/-- The first convergent from two consecutive ones on that separates. -/
def convergent : (fuel s₀ m₀ s m : Nat) → Option (Nat × Nat)
  | 0, _, _, _, _ => none
  | fuel + 1, s₀, m₀, s, m =>
    if separates a b s m then some (s, m)
    else
      let quotient := gap a b s₀ m₀ / gap a b s m
      convergent fuel s m (s₀ + quotient * s) (m₀ + quotient * m)

def multiples (s m : Nat) : Nat := min (greatest a b / s) (b / (2 ^ 26 * gap a b s m))

end Convergents

/-- Checks all decimals near a midpoint that is a multiple of `2 ^ f`. -/
def certified (f : Int) : Bool :=
  decide (2 ^ 26 * num f + 10 * den f < 10 * 2 ^ 26 * den f) &&
    (decide (den f < 2 ^ 26) ||
      match convergent (num f) (den f) 40 0 1 1 (num f / den f) with
      | none => false
      | some (s, m) => (List.range (multiples (num f) (den f) s m)).all fun j =>
          (j + 1) * s % 10 != 0 && faithful ((j + 1) * s) (gridPower f))

section Convergents

variable {a b s m : Nat}

theorem cast_gap : (gap a b s m : ℤ) = |(s * a - m * b : ℤ)| := by
  rw [gap]
  obtain le | le := le_total (s * a) (m * b)
  · have : (s * a : ℤ) ≤ m * b := by exact_mod_cast le
    rw [abs_of_nonpos (by omega)]
    push_cast [Nat.sub_eq_zero_of_le le, Nat.cast_sub le]
    ring
  · have : (m * b : ℤ) ≤ s * a := by exact_mod_cast le
    rw [abs_of_nonneg (by omega)]
    push_cast [Nat.sub_eq_zero_of_le le, Nat.cast_sub le]
    ring

theorem gap_eq_zero : gap a b s m = 0 ↔ s * a = m * b := by
  rw [gap]
  omega

theorem gap_mul (j : Nat) : gap a b (j * s) (j * m) = j * gap a b s m := by
  rw [gap, gap, Nat.mul_assoc, Nat.mul_assoc, ← Nat.mul_sub, ← Nat.mul_sub, Nat.mul_add]

theorem separates_of_convergent {fuel s₀ m₀ s₁ m₁ : Nat}
    (h : convergent a b fuel s₀ m₀ s₁ m₁ = some (s, m)) : separates a b s m = true := by
  induction fuel generalizing s₀ m₀ s₁ m₁ with
  | zero => simp [convergent] at h
  | succ fuel ih =>
    rw [convergent] at h
    split_ifs at h with good
    · obtain ⟨rfl, rfl⟩ : s₁ = s ∧ m₁ = m := by simpa using h
      exact good
    · exact ih h

/-- The pairs whose difference is small are the multiples of a separating pair. -/
theorem exists_multiple (good : separates a b s m = true) {s' m' : Nat}
    (le : s' ≤ greatest a b) (near : 2 ^ 26 * gap a b s' m' ≤ b) :
    ∃ j, s' = j * s ∧ m' = j * m := by
  simp only [separates, Bool.and_eq_true, beq_iff_eq, decide_eq_true_eq] at good
  obtain ⟨⟨⟨coprime, pos⟩, -⟩, less⟩ := good
  have parallel : (s' * m - m' * s : ℤ) = 0 := by
    -- `b` times this determinant is a combination of the two differences, both of them small
    have determinant : (b * (s' * m - m' * s) : ℤ) =
        s * (s' * a - m' * b) - s' * (s * a - m * b) := by
      ring
    have bound : 2 ^ 26 * |(b * (s' * m - m' * s) : ℤ)| < 2 ^ 26 * b := by
      rw [determinant]
      calc 2 ^ 26 * |(s * (s' * a - m' * b) - s' * (s * a - m * b) : ℤ)|
          ≤ 2 ^ 26 * (s * gap a b s' m' + s' * gap a b s m : ℤ) := by
            rw [cast_gap, cast_gap]
            refine mul_le_mul_of_nonneg_left ((abs_sub _ _).trans_eq ?_) (by norm_num)
            rw [abs_mul, abs_mul, Nat.abs_cast, Nat.abs_cast]
        _ = (s * (2 ^ 26 * gap a b s' m') + 2 ^ 26 * (s' * gap a b s m) : ℤ) := by ring
        _ ≤ (s * b + 2 ^ 26 * (greatest a b * gap a b s m) : ℤ) := by
            exact_mod_cast Nat.add_le_add (Nat.mul_le_mul_left s near)
              (Nat.mul_le_mul_left _ (Nat.mul_le_mul_right _ le))
        _ < 2 ^ 26 * b := by exact_mod_cast less
    rw [abs_mul, Nat.abs_cast] at bound
    by_contra nonzero
    have : (1 : ℤ) ≤ |(s' * m - m' * s : ℤ)| := Int.one_le_abs nonzero
    nlinarith
  have parallel : s' * m = m' * s := by
    have : (s' * m : ℤ) = m' * s := by linarith
    exact_mod_cast this
  obtain ⟨j, rfl⟩ : s ∣ s' :=
    Nat.Coprime.dvd_of_dvd_mul_right coprime ⟨m', parallel.trans (Nat.mul_comm _ _)⟩
  refine ⟨j, Nat.mul_comm _ _, Nat.eq_of_mul_eq_mul_right pos ?_⟩
  rw [← parallel]
  ring

end Convergents

theorem near_cases {f : Int} (checked : certified f = true) {s m : Nat} (pos : 0 < s)
    (le : s ≤ greatest (num f) (den f)) (near : 2 ^ 26 * gap (num f) (den f) s m ≤ den f) :
    s * num f = m * den f ∨ s % 10 ≠ 0 ∧ faithful s (gridPower f) = true := by
  simp only [certified, Bool.and_eq_true, Bool.or_eq_true, decide_eq_true_eq] at checked
  obtain small | checked := checked.2
  · exact .inl (gap_eq_zero.1 (by omega))
  split at checked
  · simp at checked
  next s₁ m₁ found =>
  have good := separates_of_convergent found
  obtain ⟨j, rfl, rfl⟩ := exists_multiple good le near
  simp only [separates, Bool.and_eq_true, decide_eq_true_eq] at good
  obtain ⟨⟨⟨-, posS⟩, posGap⟩, -⟩ := good
  -- the multiple is one of those that were checked
  obtain ⟨j, rfl⟩ := Nat.exists_eq_succ_of_ne_zero (Nat.ne_of_gt (Nat.pos_of_mul_pos_right pos))
  have counted : j < multiples (num f) (den f) s₁ m₁ := by
    rw [gap_mul, Nat.mul_left_comm] at near
    rw [multiples, lt_min_iff]
    exact ⟨(Nat.le_div_iff_mul_le posS).2 le,
      (Nat.le_div_iff_mul_le (Nat.mul_pos (by decide) posGap)).2 near⟩
  have := List.all_eq_true.1 checked j (List.mem_range.2 counted)
  simp only [Bool.and_eq_true, bne_iff_ne] at this
  exact .inr this

theorem all_certified : ((List.range 254).all fun i => certified ((i : Int) - 150)) = true := by
  decide +kernel

theorem certified_of_le {f : Int} (low : -150 ≤ f) (high : f ≤ 103) : certified f = true := by
  have := List.all_eq_true.1 all_certified (f + 150).toNat (List.mem_range.2 (by omega))
  rwa [show ((f + 150).toNat : Int) - 150 = f by omega] at this

/-! ## The same over the rational numbers -/

theorem den_pos (f : Int) : 0 < den f :=
  Nat.div_gcd_pos_of_pos_right _ (Nat.mul_pos (Nat.two_pow_pos _) (Nat.pow_pos (by decide)))

theorem num_pos (f : Int) : 0 < num f :=
  Nat.div_gcd_pos_of_pos_left _ (Nat.mul_pos (Nat.pow_pos (by decide)) (Nat.two_pow_pos _))

theorem num_div_den (f : Int) : (num f / den f : ℚ) = 10 ^ gridPower f / 2 ^ f := by
  have reduced : (num f / den f : ℚ) = tens f / twos f := by
    have pos : (0 : ℚ) < Nat.gcd (tens f) (twos f) := by
      exact_mod_cast Nat.gcd_pos_of_pos_left _
        (Nat.mul_pos (Nat.pow_pos (by decide)) (Nat.two_pow_pos _))
    rw [num, den, Nat.cast_div (Nat.gcd_dvd_left _ _) pos.ne',
      Nat.cast_div (Nat.gcd_dvd_right _ _) pos.ne', div_div_div_cancel_right₀ pos.ne']
  rw [reduced, tens, twos, ← zpow_toNat 10, ← zpow_toNat 2]
  push_cast [Nat.pow_eq]
  field_simp

/-- A power of ten that is not below `2 ^ f`, up to a tiny fraction, is on the grid for `f`. -/
theorem gridPower_le {f : Int} (low : -150 ≤ f) (high : f ≤ 103) {power : Int}
    (coarse : (1 - 1 / 2 ^ 26) * 2 ^ f ≤ (10 : ℚ) ^ power) : gridPower f ≤ power := by
  have checked := certified_of_le low high
  simp only [certified, Bool.and_eq_true, decide_eq_true_eq] at checked
  have less : (10 : ℚ) ^ gridPower f < 10 ^ (power + 1) := by
    have pos : (0 : ℚ) < den f := by exact_mod_cast den_pos f
    have fraction : (2 ^ 26 * num f + 10 * den f : ℚ) < 10 * 2 ^ 26 * den f := by
      exact_mod_cast checked.1
    have ratio : (num f / den f : ℚ) < 10 * (1 - 1 / 2 ^ 26) := by
      rw [div_lt_iff₀ pos]
      linarith
    rw [num_div_den, div_lt_iff₀ (by positivity)] at ratio
    rw [zpow_add_one₀ (by norm_num)]
    linarith
  have := (zpow_lt_zpow_iff_right₀ (by norm_num : (1 : ℚ) < 10)).1 less
  omega

/-- A decimal near a midpoint is the midpoint, or its last digit is on the grid and it is read
faithfully. -/
theorem faithful_of_near {f : Int} (low : -150 ≤ f) (high : f ≤ 103) {s m : Nat} (pos : 0 < s)
    (small : (s * 10 ^ gridPower f : ℚ) ≤ 2 ^ 25 * 2 ^ f)
    (near : |(s * 10 ^ gridPower f - m * 2 ^ f : ℚ)| ≤ 1 / 2 ^ 26 * 2 ^ f) :
    (s * 10 ^ gridPower f : ℚ) = m * 2 ^ f ∨
      s % 10 ≠ 0 ∧ faithful s (gridPower f) = true := by
  have unit : (0 : ℚ) < 2 ^ f := by positivity
  have posDen : (0 : ℚ) < den f := by exact_mod_cast den_pos f
  have posNum : (0 : ℚ) < num f := by exact_mod_cast num_pos f
  have grid : (10 : ℚ) ^ gridPower f = num f / den f * 2 ^ f := by
    rw [num_div_den, div_mul_cancel₀ _ unit.ne']
  have le : s ≤ greatest (num f) (den f) := by
    rw [grid, ← mul_assoc, mul_le_mul_iff_of_pos_right unit, ← mul_div_assoc,
      div_le_iff₀ posDen] at small
    rw [greatest, Nat.le_div_iff_mul_le (num_pos f)]
    exact_mod_cast small
  have scaled : (s * 10 ^ gridPower f - m * 2 ^ f : ℚ) =
      (s * num f - m * den f) / den f * 2 ^ f := by
    rw [grid]
    field_simp
  have close : 2 ^ 26 * gap (num f) (den f) s m ≤ den f := by
    have distance : (gap (num f) (den f) s m : ℚ) = |(s * num f - m * den f : ℚ)| := by
      exact_mod_cast congrArg (Int.cast : ℤ → ℚ) (@cast_gap (num f) (den f) s m)
    rw [scaled, abs_mul, abs_of_pos unit, mul_le_mul_iff_of_pos_right unit, abs_div,
      abs_of_pos posDen, ← distance, div_le_iff₀ posDen] at near
    have : (2 ^ 26 * gap (num f) (den f) s m : ℚ) ≤ den f := by linarith
    exact_mod_cast this
  refine (near_cases (certified_of_le low high) pos le close).imp_left fun same => ?_
  have same : (s * num f : ℚ) = m * den f := by exact_mod_cast same
  rw [← sub_eq_zero, scaled, same, sub_self, zero_div, zero_mul]

end Decimal

end Arbor
