import Arbor.Decimal.Shortest
import Mathlib.Data.Rat.Defs
import Mathlib.Tactic.FieldSimp
import Mathlib.Tactic.Linarith
import Mathlib.Tactic.NormNum
import Mathlib.Tactic.Positivity
import Mathlib.Tactic.Ring
import Mathlib.Algebra.Order.Field.Power

/-!
# Rounding to a floating-point format

The exact arithmetic of `Format.round`, in terms of rational values.

## Main definitions

* `Binary.val`: the value of a binary number.
* `Decimal.Rounding.Holds`: the interval of values that are rounded to a number.

## Main statements

* `Format.abs_round_sub_le`: a rounded value is off by at most half a unit in the last place.
* `Format.abs_round_sub_le_mul`: above the subnormal range the relative error is at most half the
  distance from one to the next number.
* `Format.round_val`: a number of the format is rounded to itself.
* `Format.bits_round`: every value in the interval of a number has its bit pattern.
-/

namespace Arbor

/-! ## Fractions and powers -/

theorem zpow_toNat (x : ℚ) (e : ℤ) : x ^ e.toNat / x ^ (-e).toNat = x ^ e := by
  obtain ⟨n, rfl | rfl⟩ := e.eq_nat_or_neg
  · simp
  · simp [zpow_neg]

def Binary.val (b : Binary) : ℚ := b.mantissa * 2 ^ b.exponent

theorem Binary.numerator_div_denominator (b : Binary) :
    (b.numerator : ℚ) / b.denominator = b.val := by
  rw [numerator, denominator, val, ← zpow_toNat, ← mul_div_assoc]
  push_cast [Nat.pow_eq]
  rfl

theorem Binary.denominator_pos (b : Binary) : 0 < b.denominator := Nat.two_pow_pos _

/-- Scaling a fraction by a power of two. -/
theorem cast_scaled (n d : Nat) (e : ℤ) :
    ((n * Nat.pow 2 (-e).toNat : Nat) : ℚ) / (d * Nat.pow 2 e.toNat : Nat) = n / d / 2 ^ e := by
  rw [← zpow_toNat, div_div_div_eq]
  push_cast [Nat.pow_eq]
  rfl

/-! ## Rounding to an integer -/

theorem abs_roundHalfEven_sub_le {n d : Nat} (pos : 0 < d) :
    |(roundHalfEven n d : ℚ) - n / d| ≤ 1 / 2 := by
  have near : 2 * n ≤ (2 * roundHalfEven n d + 1) * d ∧ 2 * roundHalfEven n d * d ≤ 2 * n + d := by
    have parts := Nat.div_add_mod n d
    have less := Nat.mod_lt n pos
    simp only [roundHalfEven]
    generalize n / d = q at *
    generalize n % d = r at *
    subst parts
    split_ifs with low high
    · constructor <;> nlinarith
    · constructor <;> nlinarith
    · obtain even | odd := Nat.mod_two_eq_zero_or_one q
      · rw [even]
        constructor <;> nlinarith
      · rw [odd]
        constructor <;> nlinarith
  have posq : (0 : ℚ) < d := by exact_mod_cast pos
  have high : (2 * n : ℚ) ≤ (2 * roundHalfEven n d + 1) * d := by exact_mod_cast near.1
  have low : (2 * roundHalfEven n d * d : ℚ) ≤ 2 * n + d := by exact_mod_cast near.2
  rw [abs_sub_le_iff, sub_le_iff_le_add, sub_le_iff_le_add, div_le_iff₀ posq,
    ← sub_le_iff_le_add', le_div_iff₀ posq]
  constructor <;> linarith

/-- Only one integer is nearest, and in the middle only one is even. -/
theorem roundHalfEven_eq {n d m : Nat} (pos : 0 < d) (near : |(m : ℚ) - n / d| ≤ 1 / 2)
    (odd : m % 2 = 1 → |(m : ℚ) - n / d| < 1 / 2) : roundHalfEven n d = m := by
  have posq : (0 : ℚ) < d := by exact_mod_cast pos
  have high : 2 * n ≤ (2 * m + 1) * d := by
    have := (abs_sub_le_iff.1 near).2
    rw [sub_le_iff_le_add, div_le_iff₀ posq] at this
    have : (2 * n : ℚ) ≤ (2 * m + 1) * d := by linarith
    exact_mod_cast this
  have low : 2 * m * d ≤ 2 * n + d := by
    have := (abs_sub_le_iff.1 near).1
    rw [sub_le_comm, le_div_iff₀ posq] at this
    have : (2 * m * d : ℚ) ≤ 2 * n + d := by linarith
    exact_mod_cast this
  have strict : m % 2 = 1 → 2 * n < (2 * m + 1) * d ∧ 2 * m * d < 2 * n + d := by
    intro h
    obtain ⟨less, more⟩ := abs_sub_lt_iff.1 (odd h)
    rw [sub_lt_comm, lt_div_iff₀ posq] at less
    rw [sub_lt_iff_lt_add, div_lt_iff₀ posq] at more
    have : (2 * n : ℚ) < (2 * m + 1) * d := by linarith
    have : (2 * m * d : ℚ) < 2 * n + d := by linarith
    constructor <;> assumption_mod_cast
  have parts := Nat.div_add_mod n d
  have less := Nat.mod_lt n pos
  simp only [roundHalfEven]
  clear near odd
  generalize n / d = q at *
  generalize n % d = r at *
  subst parts
  -- the integer is one of the two around the quotient
  obtain below | rfl | rfl | above : m < q ∨ m = q ∨ m = q + 1 ∨ q + 1 < m := by omega
  · nlinarith
  · split_ifs with less more
    · rfl
    · nlinarith
    · have even : m % 2 ≠ 1 := fun h => by nlinarith [(strict h).1]
      omega
  · split_ifs with less more
    · nlinarith
    · rfl
    · have even : (q + 1) % 2 ≠ 1 := fun h => by nlinarith [(strict h).2]
      omega
  · nlinarith

/-! ## Rounding to a format -/

theorem Binary.floorLog2_spec {n d : Nat} (hn : 0 < n) (hd : 0 < d) :
    (2 : ℚ) ^ floorLog2 n d ≤ n / d ∧ (n / d : ℚ) < 2 ^ (floorLog2 n d + 1) := by
  have cast_log : ∀ {m : Nat}, 0 < m →
      (2 : ℚ) ^ (m.log2 : ℤ) ≤ m ∧ (m : ℚ) < 2 ^ ((m.log2 : ℤ) + 1) := by
    intro m hm
    constructor
    · exact_mod_cast Nat.log2_self_le (Nat.ne_of_gt hm)
    · exact_mod_cast @Nat.lt_log2_self m
  obtain ⟨nLow, nHigh⟩ := cast_log hn
  obtain ⟨dLow, dHigh⟩ := cast_log hd
  have hdq : (0 : ℚ) < d := by exact_mod_cast hd
  have test : n * Nat.pow 2 (-((n.log2 : ℤ) - d.log2)).toNat <
      d * Nat.pow 2 ((n.log2 : ℤ) - d.log2).toNat ↔ (n / d : ℚ) < 2 ^ ((n.log2 : ℤ) - d.log2) := by
    have pos : 0 < d * Nat.pow 2 ((n.log2 : ℤ) - d.log2).toNat :=
      Nat.mul_pos hd (Nat.two_pow_pos _)
    rw [← @Nat.cast_lt ℚ, ← div_lt_one (by exact_mod_cast pos), cast_scaled,
      div_lt_one (by positivity)]
  simp only [floorLog2]
  split_ifs with less
  · refine ⟨?_, by simpa using test.1 less⟩
    rw [le_div_iff₀ hdq]
    calc (2 : ℚ) ^ ((n.log2 : ℤ) - d.log2 - 1) * d
        ≤ 2 ^ ((n.log2 : ℤ) - d.log2 - 1) * 2 ^ ((d.log2 : ℤ) + 1) := by gcongr
      _ = 2 ^ (n.log2 : ℤ) := by rw [← zpow_add₀ two_ne_zero]; congr 1; ring
      _ ≤ n := nLow
  · refine ⟨not_lt.1 fun h => less (test.2 h), ?_⟩
    rw [div_lt_iff₀ hdq]
    calc (n : ℚ) < 2 ^ ((n.log2 : ℤ) + 1) := nHigh
      _ = 2 ^ ((n.log2 : ℤ) - d.log2 + 1) * 2 ^ (d.log2 : ℤ) := by
        rw [← zpow_add₀ two_ne_zero]; congr 1; ring
      _ ≤ 2 ^ ((n.log2 : ℤ) - d.log2 + 1) * d := by gcongr

namespace Format

variable (format : Format) {n d : Nat}

theorem least_le_exponentOf : format.least ≤ format.exponentOf n d := by
  rw [exponentOf]
  split_ifs
  · exact le_rfl
  · exact le_max_left _ _

/-- The exponent is the least one with which the mantissa is short enough. -/
theorem exponentOf_le (hn : 0 < n) (hd : 0 < d) {e : ℤ} (le : format.least ≤ e)
    (less : (n / d : ℚ) < 2 ^ (format.precision + e)) : format.exponentOf n d ≤ e := by
  have low := (Binary.floorLog2_spec hn hd).1.trans_lt less
  rw [zpow_lt_zpow_iff_right₀ one_lt_two] at low
  rw [exponentOf, if_neg (Nat.ne_of_gt hn), max_le_iff]
  omega

theorem lt_two_zpow_exponentOf (hn : 0 < n) (hd : 0 < d) :
    (n / d : ℚ) < 2 ^ (format.precision + format.exponentOf n d) := by
  refine (Binary.floorLog2_spec hn hd).2.trans_le (zpow_le_zpow_right₀ one_le_two ?_)
  rw [exponentOf, if_neg (Nat.ne_of_gt hn)]
  have := le_max_right format.least (Binary.floorLog2 n d + 1 - format.precision)
  omega

/-- Above the least exponent the mantissa is not too short. -/
theorem two_zpow_exponentOf_le (hn : 0 < n) (hd : 0 < d)
    (normal : format.least < format.exponentOf n d) :
    2 ^ (format.precision + format.exponentOf n d - 1) ≤ (n / d : ℚ) := by
  refine le_trans (zpow_le_zpow_right₀ one_le_two ?_) (Binary.floorLog2_spec hn hd).1
  rw [exponentOf, if_neg (Nat.ne_of_gt hn)] at normal ⊢
  omega

theorem exponent_round : (format.round n d).exponent = format.exponentOf n d := rfl

/-- The mantissa of a rounded number is the scaled value, rounded to an integer. -/
theorem mantissa_round : (format.round n d).mantissa =
    roundHalfEven (n * Nat.pow 2 (-format.exponentOf n d).toNat)
      (d * Nat.pow 2 (format.exponentOf n d).toNat) := rfl

/-- A rounded value is off by at most half a unit in the last place. -/
theorem abs_round_sub_le (hd : 0 < d) :
    |(format.round n d).val - n / d| ≤ 2 ^ format.exponentOf n d / 2 := by
  have unit : (0 : ℚ) < 2 ^ format.exponentOf n d := by positivity
  have near := abs_roundHalfEven_sub_le (n := n * Nat.pow 2 (-format.exponentOf n d).toNat)
    (Nat.mul_pos hd (Nat.two_pow_pos (format.exponentOf n d).toNat))
  rw [← Nat.pow_eq, cast_scaled, ← mantissa_round] at near
  calc |(format.round n d).val - n / d|
      = |((format.round n d).mantissa : ℚ) - n / d / 2 ^ format.exponentOf n d| *
          2 ^ format.exponentOf n d := by
        rw [← abs_of_pos unit, ← abs_mul, abs_of_pos unit, sub_mul, div_mul_cancel₀ _ unit.ne']
        rfl
    _ ≤ 1 / 2 * 2 ^ format.exponentOf n d := by gcongr
    _ = 2 ^ format.exponentOf n d / 2 := by ring

/-- Above the subnormal numbers the relative error is at most half of `2 ^ (1 - precision)`. -/
theorem abs_round_sub_le_mul (hn : 0 < n) (hd : 0 < d)
    (normal : 2 ^ (format.precision + format.least - 1) ≤ (n / d : ℚ)) :
    |(format.round n d).val - n / d| ≤ n / d * 2 ^ (-format.precision : ℤ) := by
  have size : 2 ^ (format.precision + format.exponentOf n d - 1) ≤ (n / d : ℚ) := by
    obtain least | above := format.least_le_exponentOf.eq_or_lt
    · rwa [← least]
    · exact format.two_zpow_exponentOf_le hn hd above
  calc |(format.round n d).val - n / d|
      ≤ 2 ^ format.exponentOf n d / 2 := format.abs_round_sub_le hd
    _ = 2 ^ (format.precision + format.exponentOf n d - 1) * 2 ^ (-format.precision : ℤ) := by
        rw [← zpow_add₀ two_ne_zero, div_eq_mul_inv, ← zpow_sub_one₀ two_ne_zero]
        congr 1
        ring
    _ ≤ n / d * 2 ^ (-format.precision : ℤ) := by gcongr

/-- The rounded number has the given mantissa if that is nearest, and even in the middle. -/
theorem mantissa_round_eq (hd : 0 < d) {m : Nat}
    (near : |m * 2 ^ format.exponentOf n d - (n / d : ℚ)| ≤ 2 ^ format.exponentOf n d / 2)
    (odd : m % 2 = 1 →
      |m * 2 ^ format.exponentOf n d - (n / d : ℚ)| < 2 ^ format.exponentOf n d / 2) :
    (format.round n d).mantissa = m := by
  have unit : (0 : ℚ) < 2 ^ format.exponentOf n d := by positivity
  have distance : |m * 2 ^ format.exponentOf n d - (n / d : ℚ)| =
      |(m : ℚ) - n / d / 2 ^ format.exponentOf n d| * 2 ^ format.exponentOf n d := by
    rw [← abs_of_pos unit, ← abs_mul, abs_of_pos unit, sub_mul, div_mul_cancel₀ _ unit.ne']
  have half : (2 : ℚ) ^ format.exponentOf n d / 2 = 1 / 2 * 2 ^ format.exponentOf n d := by ring
  rw [distance, half, mul_le_mul_iff_of_pos_right unit] at near
  rw [distance, half, mul_lt_mul_iff_of_pos_right unit] at odd
  apply roundHalfEven_eq (Nat.mul_pos hd (Nat.two_pow_pos _))
  · rwa [← Nat.pow_eq, cast_scaled]
  · rwa [← Nat.pow_eq, cast_scaled]

/-- A number of the format is rounded to itself. -/
theorem round_val (hn : 0 < n) (hd : 0 < d) {m : Nat} {e : ℤ} (value : (n / d : ℚ) = m * 2 ^ e)
    (short : m < 2 ^ format.precision) (le : format.least ≤ e) :
    (format.round n d).val = n / d := by
  have less : (n / d : ℚ) < 2 ^ (format.precision + e) := by
    rw [value, zpow_add₀ two_ne_zero, zpow_natCast]
    have : (m : ℚ) < 2 ^ format.precision := by exact_mod_cast short
    gcongr
  have finer := format.exponentOf_le hn hd le less
  obtain ⟨shift, hshift⟩ := Int.eq_ofNat_of_zero_le (sub_nonneg.2 finer)
  have rewritten : ((m * 2 ^ shift : Nat) : ℚ) * 2 ^ format.exponentOf n d = n / d := by
    rw [value, show e = shift + format.exponentOf n d by omega, zpow_add₀ two_ne_zero, zpow_natCast]
    push_cast
    ring
  have unit : (0 : ℚ) < 2 ^ format.exponentOf n d / 2 := by positivity
  have mantissa : (format.round n d).mantissa = m * 2 ^ shift :=
    format.mantissa_round_eq hd (by rw [rewritten, sub_self, abs_zero]; exact unit.le)
      fun _ => by rwa [rewritten, sub_self, abs_zero]
  rw [Binary.val, mantissa, exponent_round, rewritten]

/-- The canonical way to write a number of the format: the mantissa has a leading bit unless the
exponent is the least one. -/
structure Canonical (b : Binary) : Prop where
  mantissa_lt : b.mantissa < 2 ^ format.precision
  least_le : format.least ≤ b.exponent
  normal : b.exponent = format.least ∨ 2 ^ format.fractionBits ≤ b.mantissa

end Format

namespace Decimal.Rounding

def Holds (r : Rounding) (v : ℚ) : Prop :=
  if r.closed then r.lower * 2 ^ r.exponent ≤ v ∧ v ≤ r.upper * 2 ^ r.exponent
  else r.lower * 2 ^ r.exponent < v ∧ v < r.upper * 2 ^ r.exponent

/-- How far the interval reaches below its number, in units of `2 ^ (b.exponent - 2)`. -/
def reach (format : Format) (b : Binary) : Nat :=
  if b.mantissa = Nat.pow 2 format.fractionBits ∧ format.least < b.exponent then 1 else 2

variable {format : Format} {b : Binary} {v : ℚ}

theorem holds_of_iff (pos : 0 < b.mantissa) : (Rounding.of format b).Holds v ↔
    b.val - reach format b * 2 ^ (b.exponent - 2) ≤ v ∧ v ≤ b.val + 2 * 2 ^ (b.exponent - 2) ∧
    (b.mantissa % 2 = 1 → b.val - reach format b * 2 ^ (b.exponent - 2) < v ∧
      v < b.val + 2 * 2 ^ (b.exponent - 2)) := by
  have low : ((Rounding.of format b).lower : ℚ) * 2 ^ (b.exponent - 2) =
      b.val - reach format b * 2 ^ (b.exponent - 2) := by
    have le : reach format b ≤ 4 * b.mantissa := by
      rw [reach]
      split_ifs <;> omega
    have : (Rounding.of format b).lower = 4 * b.mantissa - reach format b := rfl
    rw [this, Nat.cast_sub le, Binary.val, show b.exponent = b.exponent - 2 + 2 by ring,
      zpow_add₀ two_ne_zero]
    push_cast
    ring_nf
  have high : ((Rounding.of format b).upper : ℚ) * 2 ^ (b.exponent - 2) =
      b.val + 2 * 2 ^ (b.exponent - 2) := by
    have : (Rounding.of format b).upper = 4 * b.mantissa + 2 := rfl
    rw [this, Binary.val, show b.exponent = b.exponent - 2 + 2 by ring, zpow_add₀ two_ne_zero]
    push_cast
    ring_nf
  have ends : (Rounding.of format b).exponent = b.exponent - 2 := rfl
  have closed : (Rounding.of format b).closed = decide (b.mantissa % 2 = 0) := rfl
  rw [Holds, ends, closed, low, high]
  obtain even | odd := Nat.mod_two_eq_zero_or_one b.mantissa
  · simp [even]
  · simp only [odd, Nat.one_ne_zero, decide_false, Bool.false_eq_true, if_false, true_implies]
    exact ⟨fun h => ⟨h.1.le, h.2.le, h⟩, fun h => h.2.2⟩

theorem reach_le : reach format b ≤ 2 := by
  rw [reach]
  split_ifs <;> omega

end Decimal.Rounding

namespace Format

open Decimal.Rounding

variable {format : Format} {b : Binary} {n d : Nat}

theorem val_eq_mul (b : Binary) : b.val = 4 * b.mantissa * 2 ^ (b.exponent - 2) := by
  rw [Binary.val, show b.exponent = b.exponent - 2 + 2 by ring, zpow_add₀ two_ne_zero]
  ring_nf

theorem pos_of_holds (pos : 0 < b.mantissa) (hd : 0 < d)
    (holds : (Decimal.Rounding.of format b).Holds (n / d)) : 0 < n := by
  have unit : (0 : ℚ) < 2 ^ (b.exponent - 2) := by positivity
  have low := ((holds_of_iff pos).1 holds).1
  have reach : (reach format b : ℚ) ≤ 2 := by exact_mod_cast reach_le
  have mantissa : (1 : ℚ) ≤ b.mantissa := by exact_mod_cast pos
  rw [val_eq_mul] at low
  have value : (0 : ℚ) < n / d := by nlinarith
  rw [div_pos_iff_of_pos_right (by exact_mod_cast hd)] at value
  exact_mod_cast value

theorem exponentOf_le_of_holds (canonical : format.Canonical b) (pos : 0 < b.mantissa) (hd : 0 < d)
    (holds : (Decimal.Rounding.of format b).Holds (n / d)) :
    format.exponentOf n d ≤ b.exponent := by
  have unit : (0 : ℚ) < 2 ^ (b.exponent - 2) := by positivity
  have high := ((holds_of_iff pos).1 holds).2.1
  refine format.exponentOf_le (pos_of_holds pos hd holds) hd canonical.least_le ?_
  have short : (b.mantissa : ℚ) + 1 ≤ 2 ^ format.precision := by
    exact_mod_cast canonical.mantissa_lt
  rw [val_eq_mul] at high
  calc (n / d : ℚ) < 4 * (b.mantissa + 1) * 2 ^ (b.exponent - 2) := by nlinarith
    _ ≤ 4 * 2 ^ format.precision * 2 ^ (b.exponent - 2) := by gcongr
    _ = 2 ^ (format.precision + b.exponent) := by
      rw [← zpow_natCast, show (4 : ℚ) = 2 ^ (2 : ℤ) by norm_num, ← zpow_add₀ two_ne_zero,
        ← zpow_add₀ two_ne_zero]
      congr 1
      ring

/-- Values just below a power of two belong to it although their exponent is one less. -/
theorem narrow_of_exponentOf_lt (precise : 0 < format.precision) (canonical : format.Canonical b)
    (pos : 0 < b.mantissa) (hd : 0 < d) (holds : (Decimal.Rounding.of format b).Holds (n / d))
    (less : format.exponentOf n d < b.exponent) :
    b.mantissa = 2 ^ format.fractionBits ∧ reach format b = 1 ∧
      format.exponentOf n d = b.exponent - 1 := by
  have unit : (0 : ℚ) < 2 ^ (b.exponent - 2) := by positivity
  have low := ((holds_of_iff pos).1 holds).1
  have above := format.lt_two_zpow_exponentOf (pos_of_holds pos hd holds) hd
  have bounded : ∀ levels : ℤ, format.exponentOf n d ≤ b.exponent - 2 + levels →
      (n / d : ℚ) < 2 * 2 ^ levels * 2 ^ format.fractionBits * 2 ^ (b.exponent - 2) := by
    intro levels le
    refine above.trans_le ((zpow_le_zpow_right₀ one_le_two (add_le_add_right le _)).trans_eq ?_)
    rw [← zpow_natCast, ← zpow_one_add₀ two_ne_zero, ← zpow_add₀ two_ne_zero,
      ← zpow_add₀ two_ne_zero, fractionBits, Nat.cast_sub precise]
    congr 1
    push_cast
    ring
  have least := format.least_le_exponentOf (n := n) (d := d)
  have normal : 2 ^ format.fractionBits ≤ b.mantissa :=
    canonical.normal.resolve_left (by omega)
  rw [val_eq_mul] at low
  have power : b.mantissa = 2 ^ format.fractionBits := by
    refine normal.antisymm' (not_lt.1 fun more => ?_)
    have more : (2 : ℚ) ^ format.fractionBits + 1 ≤ b.mantissa := by exact_mod_cast more
    have reach : (reach format b : ℚ) ≤ 2 := by exact_mod_cast reach_le
    have := bounded 1 (by omega)
    nlinarith
  have narrow : reach format b = 1 := if_pos ⟨power, least.trans_lt less⟩
  refine ⟨power, narrow, le_antisymm (by omega) (not_lt.1 fun much => ?_)⟩
  have := bounded 0 (by omega)
  have : (1 : ℚ) ≤ 2 ^ format.fractionBits := one_le_pow₀ one_le_two
  rw [narrow, power] at low
  push_cast at low
  nlinarith

/-- The number with a bit pattern is written canonically, and that is its bit pattern. -/
theorem canonical_of_decode (precise : 0 < format.precision) {pattern : Nat}
    (h : format.decode pattern = some b) :
    format.Canonical b ∧ b.exponent ≤ max format.least format.greatest ∧
      format.bits b = pattern := by
  have precision : format.precision = format.fractionBits + 1 := by
    rw [fractionBits]
    omega
  simp only [decode, Nat.pow_eq] at h
  have parts := Nat.div_add_mod pattern (2 ^ format.fractionBits)
  have small := Nat.mod_lt pattern (Nat.two_pow_pos format.fractionBits)
  split_ifs at h with infinite subnormal
  · obtain rfl := Option.some.inj h
    rw [subnormal, Nat.mul_zero, Nat.zero_add] at parts
    refine ⟨⟨?_, le_rfl, .inl rfl⟩, le_max_left _ _, ?_⟩
    · rw [precision, pow_succ]
      exact small.trans_le (Nat.le_mul_of_pos_right _ Nat.two_pos)
    · rw [bits, sub_self, Int.toNat_zero, Nat.zero_mul, Nat.zero_add, parts]
      exact min_eq_right (not_le.1 infinite).le
  · obtain rfl := Option.some.inj h
    have field : pattern / 2 ^ format.fractionBits <
        (format.greatest - format.least + 2).toNat :=
      Nat.div_lt_of_lt_mul ((not_le.1 infinite).trans_eq (Nat.mul_comm _ _))
    generalize pattern / 2 ^ format.fractionBits = exponent at *
    refine ⟨⟨?_, ?_, .inr ?_⟩, ?_, ?_⟩
    · rw [precision, pow_succ, Nat.mul_two]
      exact Nat.add_lt_add_left small _
    · dsimp only
      omega
    · exact Nat.le_add_right _ _
    · refine le_trans ?_ (le_max_right _ _)
      dsimp only
      omega
    · obtain ⟨earlier, rfl⟩ := Nat.exists_eq_succ_of_ne_zero subnormal
      have : (format.least + (earlier.succ : ℤ) - 1 - format.least).toNat = earlier := by omega
      rw [bits, this, Nat.pow_eq, ← Nat.add_assoc, ← Nat.succ_mul, Nat.mul_comm, parts]
      exact min_eq_right (not_le.1 infinite).le

/-- Every value in the interval of a number is rounded to its bit pattern. -/
theorem bits_round (precise : 0 < format.precision) (canonical : format.Canonical b)
    (pos : 0 < b.mantissa) (hd : 0 < d) (holds : (Decimal.Rounding.of format b).Holds (n / d)) :
    format.bits (format.round n d) = format.bits b := by
  have unit : (0 : ℚ) < 2 ^ (b.exponent - 2) := by positivity
  have reach : (reach format b : ℚ) ≤ 2 := by exact_mod_cast reach_le
  have ⟨low, high, odd⟩ := (holds_of_iff pos).1 holds
  obtain same | less := (exponentOf_le_of_holds canonical pos hd holds).eq_or_lt
  · have units : (2 : ℚ) ^ format.exponentOf n d = 4 * 2 ^ (b.exponent - 2) := by
      rw [same, show b.exponent = b.exponent - 2 + 2 by ring, zpow_add₀ two_ne_zero]
      ring_nf
    have mantissa : (format.round n d).mantissa = b.mantissa := by
      rw [val_eq_mul] at low high odd
      refine format.mantissa_round_eq hd ?_ fun h => ?_
      · rw [units, abs_sub_le_iff]
        constructor <;> nlinarith
      · rw [units, abs_sub_lt_iff]
        obtain ⟨low, high⟩ := odd h
        constructor <;> nlinarith
    rw [bits, bits, mantissa, exponent_round, same]
  · obtain ⟨power, narrow, exponent⟩ := narrow_of_exponentOf_lt precise canonical pos hd holds less
    have precision : format.precision = format.fractionBits + 1 := by
      rw [fractionBits]
      omega
    have units : (2 : ℚ) ^ format.exponentOf n d = 2 * 2 ^ (b.exponent - 2) := by
      rw [exponent, ← zpow_one_add₀ two_ne_zero]
      congr 1
      ring
    have above := format.lt_two_zpow_exponentOf (pos_of_holds pos hd holds) hd
    rw [precision, zpow_add₀ two_ne_zero, units, zpow_natCast, pow_succ] at above
    have mantissa : (format.round n d).mantissa = 2 ^ format.precision := by
      rw [val_eq_mul, narrow, power] at low
      push_cast at low
      refine format.mantissa_round_eq hd ?_ fun odd => ?_
      · rw [units, precision, abs_sub_le_iff]
        push_cast
        rw [pow_succ]
        constructor <;> nlinarith
      · rw [precision, pow_succ] at odd
        omega
    have least := format.least_le_exponentOf (n := n) (d := d)
    have field : (b.exponent - format.least).toNat =
        (format.exponentOf n d - format.least).toNat + 1 := by omega
    rw [bits, bits, mantissa, exponent_round, power, field, precision, Nat.pow_eq, pow_succ]
    congr 1
    ring

end Format

end Arbor
