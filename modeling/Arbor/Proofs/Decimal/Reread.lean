import Arbor.Proofs.Decimal.Midpoint
import Arbor.Proofs.Decimal.Shortest

/-!
# Shortest decimals are read back

Reading a decimal as a 64-bit number is off by at most one part in `2 ^ 51`. So if the result leaves
the interval of the number that the decimal stands for, the decimal is near an end of that interval,
which is a midpoint of two numbers of 32 bits. There it is exact or known to be read faithfully.

## Main statements

* `Json.Literal.scale_eq`: what a decimal is read as.
* `Json.Literal.abs_reading_sub_le`: how far that is off.
* `Decimal.bits_reading`: the shortest decimal of a number is read as that number.
-/

namespace Arbor

namespace Json.Literal

open Format

/-! ## Arithmetic of 64-bit numbers -/

/-- The quotient of two numbers as the fraction that is rounded. -/
theorem quotient_eq (a b : Binary) :
    ((a.numerator * b.denominator : Nat) : ℚ) / (a.denominator * b.numerator : Nat) =
      a.val / b.val := by
  rw [← a.numerator_div_denominator, ← b.numerator_div_denominator, div_div_div_eq]
  push_cast
  rfl

/-- The product of two numbers as the fraction that is rounded. -/
theorem product_eq (a b : Binary) :
    ((a.numerator * b.numerator : Nat) : ℚ) / (a.denominator * b.denominator : Nat) =
      a.val * b.val := by
  rw [← a.numerator_div_denominator, ← b.numerator_div_denominator, div_mul_div_comm]
  push_cast
  rfl

/-- Rounding to 64 bits far above the subnormal numbers. -/
theorem abs_double_sub_le {n d : Nat} (normal : 1 / 2 ^ 200 ≤ (n / d : ℚ)) :
    |(double.round n d).val - n / d| ≤ n / d * (1 / 2 ^ 53) := by
  have positive : (0 : ℚ) < n / d := lt_of_lt_of_le (by positivity) normal
  have hn : 0 < n := Nat.pos_of_ne_zero fun zero => by simp [zero] at positive
  have hd : 0 < d := Nat.pos_of_ne_zero fun zero => by simp [zero] at positive
  have unit : (2 : ℚ) ^ (-(double.precision : ℤ)) = 1 / 2 ^ 53 := by
    rw [zpow_neg, zpow_natCast, one_div]
    rfl
  rw [← unit]
  refine double.abs_round_sub_le_mul hn hd (le_trans ?_ normal)
  rw [one_div, ← zpow_natCast, ← zpow_neg]
  exact zpow_le_zpow_right₀ one_le_two (by decide)

theorem abs_dividedBy_sub_le {a b : Binary} (normal : 1 / 2 ^ 200 ≤ a.val / b.val) :
    |(dividedBy a b).val - a.val / b.val| ≤ a.val / b.val * (1 / 2 ^ 53) := by
  rw [← quotient_eq] at normal ⊢
  exact abs_double_sub_le normal

theorem abs_times_sub_le {a b : Binary} (normal : 1 / 2 ^ 200 ≤ a.val * b.val) :
    |(times a b).val - a.val * b.val| ≤ a.val * b.val * (1 / 2 ^ 53) := by
  rw [← product_eq] at normal ⊢
  exact abs_double_sub_le normal

theorem val_size {significand : Nat} (pos : 0 < significand) (short : significand < 2 ^ 53) :
    (double.round significand 1).val = significand := by
  have value : (significand / (1 : Nat) : ℚ) = significand * 2 ^ (0 : ℤ) := by simp
  rw [double.round_val pos Nat.one_pos value short (by decide), value, zpow_zero, mul_one]

theorem val_power_of_le {exponent : Nat} (le : exponent ≤ 22) :
    (power exponent).val = 10 ^ exponent := by
  have pos : 0 < 10 ^ exponent := Nat.pow_pos (by decide)
  have value : ((10 ^ exponent : Nat) / (1 : Nat) : ℚ) =
      (5 ^ exponent : Nat) * 2 ^ (exponent : ℤ) := by
    push_cast
    rw [div_one, zpow_natCast, ← mul_pow]
    norm_num
  have short : 5 ^ exponent < 2 ^ 53 :=
    (Nat.pow_le_pow_right (by decide) le).trans_lt (by decide)
  rw [power, Nat.pow_eq, double.round_val pos Nat.one_pos value short
    (by change (-1074 : ℤ) ≤ exponent; omega)]
  simp

theorem abs_power_sub_le (exponent : Nat) :
    |(power exponent).val - 10 ^ exponent| ≤ 10 ^ exponent * (1 / 2 ^ 53) := by
  have one : (1 : ℚ) ≤ 10 ^ exponent := one_le_pow₀ (by norm_num)
  have cast : (((10 : Nat).pow exponent : Nat) / (1 : Nat) : ℚ) = 10 ^ exponent := by
    push_cast [Nat.pow_eq]
    rw [div_one]
  rw [power, ← cast]
  refine abs_double_sub_le (cast ▸ le_trans ?_ one)
  norm_num

section Errors

variable {s t approx result ε : ℚ}

/-- Dividing by an approximation and rounding the result. -/
theorem abs_sub_div_le (hs : 0 ≤ s) (ht : 0 < t) (hε : ε ≤ 1 / 2)
    (close : |approx - t| ≤ t * ε) (rounded : |result - s / approx| ≤ s / approx * ε) :
    |result - s / t| ≤ 4 * ε * (s / t) := by
  obtain ⟨-, below⟩ := abs_sub_le_iff.1 close
  have half : t ≤ 2 * approx := by nlinarith
  have positive : 0 < approx := by linarith
  have nonneg : 0 ≤ ε := nonneg_of_mul_nonneg_right ((abs_nonneg _).trans close) ht
  have quotient : s / approx ≤ 2 * (s / t) := by
    rw [← mul_div_assoc, div_le_div_iff₀ positive ht]
    nlinarith
  have shifted : |s / approx - s / t| ≤ s / approx * ε := by
    have : s / approx - s / t = s / approx * ((t - approx) / t) := by field_simp
    rw [this, abs_mul, abs_of_nonneg (div_nonneg hs positive.le), abs_div, abs_of_pos ht,
      abs_sub_comm]
    refine mul_le_mul_of_nonneg_left ?_ (div_nonneg hs positive.le)
    rwa [div_le_iff₀ ht, mul_comm]
  calc |result - s / t| ≤ |result - s / approx| + |s / approx - s / t| := abs_sub_le _ _ _
    _ ≤ 2 * ε * (s / approx) := by linarith
    _ ≤ 2 * ε * (2 * (s / t)) := by gcongr
    _ = 4 * ε * (s / t) := by ring

/-- Multiplying with an approximation and rounding the result. -/
theorem abs_sub_mul_le (hs : 0 ≤ s) (ht : 0 < t) (hε : ε ≤ 1 / 2)
    (close : |approx - t| ≤ t * ε) (rounded : |result - s * approx| ≤ s * approx * ε) :
    |result - s * t| ≤ 4 * ε * (s * t) := by
  obtain ⟨above, -⟩ := abs_sub_le_iff.1 close
  have nonneg : 0 ≤ ε := nonneg_of_mul_nonneg_right ((abs_nonneg _).trans close) ht
  have product : s * approx ≤ 2 * (s * t) := by
    have : approx ≤ 2 * t := by nlinarith
    nlinarith
  have shifted : |s * approx - s * t| ≤ s * t * ε := by
    rw [← mul_sub, abs_mul, abs_of_nonneg hs, mul_assoc]
    exact mul_le_mul_of_nonneg_left close hs
  calc |result - s * t| ≤ |result - s * approx| + |s * approx - s * t| := abs_sub_le _ _ _
    _ ≤ s * approx * ε + s * t * ε := add_le_add rounded shifted
    _ ≤ 2 * (s * t) * ε + s * t * ε := by gcongr
    _ ≤ 4 * ε * (s * t) := by nlinarith [mul_nonneg (mul_nonneg hs ht.le) nonneg]

end Errors

/-- Two roundings, of the power of ten and of the result, are off by at most one part in `2 ^ 51`.
-/
theorem abs_reading_sub_le {significand : Nat} {exponent : Int} (pos : 0 < significand)
    (short : significand < 2 ^ 53) (low : -55 ≤ exponent) (high : exponent ≤ 55) :
    |(reading significand exponent).val - significand * 10 ^ exponent| ≤
      1 / 2 ^ 51 * (significand * 10 ^ exponent) := by
  have one : (1 : ℚ) ≤ significand := by exact_mod_cast pos
  have size := val_size pos short
  rw [reading]
  split_ifs with negative
  · obtain ⟨n, rfl⟩ := Int.exists_eq_neg_ofNat (Int.le_of_lt negative)
    have bound : (10 : ℚ) ^ n ≤ 10 ^ 55 := pow_le_pow_right₀ (by norm_num) (by omega)
    obtain ⟨above, below⟩ := abs_sub_le_iff.1 (abs_power_sub_le n)
    have normal : 1 / 2 ^ 200 ≤ (double.round significand 1).val / (power n).val := by
      have ten : (0 : ℚ) < 10 ^ n := by positivity
      rw [size, div_le_div_iff₀ (by positivity) (by linarith)]
      norm_num at bound ⊢
      linarith
    have rounded := abs_dividedBy_sub_le normal
    rw [size] at rounded
    rw [Int.natAbs_neg, Int.natAbs_natCast, zpow_neg, zpow_natCast, ← div_eq_mul_inv]
    convert abs_sub_div_le (by linarith) (by positivity) (by norm_num) (abs_power_sub_le n) rounded
      using 2
    norm_num
  · obtain ⟨n, rfl⟩ := Int.eq_ofNat_of_zero_le (not_lt.1 negative)
    have ten : (1 : ℚ) ≤ 10 ^ n := one_le_pow₀ (by norm_num)
    obtain ⟨above, below⟩ := abs_sub_le_iff.1 (abs_power_sub_le n)
    have normal : 1 / 2 ^ 200 ≤ (double.round significand 1).val * (power n).val := by
      rw [size]
      norm_num
      nlinarith
    have rounded := abs_times_sub_le normal
    rw [size] at rounded
    rw [Int.toNat_natCast, zpow_natCast]
    convert abs_sub_mul_le (by linarith) (by positivity) (by norm_num) (abs_power_sub_le n) rounded
      using 2
    norm_num

/-- A decimal that is a 64-bit number is read exactly if its power of ten is a 64-bit number too. -/
theorem val_reading {significand m : Nat} {exponent e : Int} (pos : 0 < significand)
    (short : significand < 2 ^ 53) (low : -22 ≤ exponent) (high : exponent ≤ 22)
    (value : (significand * 10 ^ exponent : ℚ) = m * 2 ^ e) (mantissa : m < 2 ^ 53)
    (least : -1074 ≤ e) :
    (reading significand exponent).val = significand * 10 ^ exponent := by
  have rounded : ∀ {n d : Nat}, (n / d : ℚ) = significand * 10 ^ exponent →
      (double.round n d).val = significand * 10 ^ exponent := by
    intro n d quotient
    have positive : (0 : ℚ) < n / d := by
      rw [quotient]
      have : (0 : ℚ) < significand := by exact_mod_cast pos
      positivity
    have hn : 0 < n := Nat.pos_of_ne_zero fun zero => by simp [zero] at positive
    have hd : 0 < d := Nat.pos_of_ne_zero fun zero => by simp [zero] at positive
    rw [double.round_val hn hd (quotient.trans value) mantissa least, quotient]
  rw [reading]
  split_ifs with negative
  · apply rounded
    obtain ⟨n, rfl⟩ := Int.exists_eq_neg_ofNat (Int.le_of_lt negative)
    rw [quotient_eq, val_size pos short, Int.natAbs_neg, Int.natAbs_natCast,
      val_power_of_le (by omega), zpow_neg, zpow_natCast, div_eq_mul_inv]
  · apply rounded
    obtain ⟨n, rfl⟩ := Int.eq_ofNat_of_zero_le (not_lt.1 negative)
    rw [product_eq, val_size pos short, Int.toNat_natCast, val_power_of_le (by omega),
      zpow_natCast]

theorem fits_of_lt {b : Binary} (less : b.val < 2 ^ 240) : double.fits b = true := by
  have pos : (0 : ℚ) < b.denominator := by exact_mod_cast b.denominator_pos
  rw [← b.numerator_div_denominator, div_lt_iff₀ pos] at less
  have less : b.numerator < 2 ^ 240 * b.denominator := by exact_mod_cast less
  have digits : 240 ≤ (double.precision + double.greatest).toNat := by decide
  rw [fits, decide_eq_true_eq]
  generalize (double.precision + double.greatest).toNat = limit at digits
  exact less.trans_le (Nat.mul_le_mul_right _ (Nat.pow_le_pow_right Nat.two_pos digits))

theorem scale_eq {significand : Nat} {exponent : Int} (pos : 0 < significand)
    (short : significand < 2 ^ 53) (low : -55 ≤ exponent) (high : exponent ≤ 55) :
    scale significand exponent = some (reading significand exponent) := by
  have bound : (reading significand exponent).val < 2 ^ 240 := by
    have near := (abs_sub_le_iff.1 (abs_reading_sub_le pos short low high)).1
    have size : (significand : ℚ) < 2 ^ 53 := by exact_mod_cast short
    have power : (10 : ℚ) ^ exponent ≤ 10 ^ (55 : ℤ) := zpow_le_zpow_right₀ (by norm_num) high
    have product : (significand * 10 ^ exponent : ℚ) ≤ 2 ^ 53 * 10 ^ (55 : ℤ) := by gcongr
    norm_num at near product ⊢
    linarith
  rw [scale]
  dsimp only
  split_ifs with negative small fitting
  · rw [reading, if_pos negative, scaleDown, if_pos]
    simp only [greatestPower]
    omega
  · rw [reading, if_neg negative]
  · rw [reading, if_neg negative] at bound
    exact absurd (fits_of_lt bound) fitting
  · simp only [greatestPower] at small
    omega
  · simp only [greatestPower] at small
    omega

end Json.Literal

namespace Decimal

open Json.Literal

variable {b : Binary} {d : Decimal}

/-- The midpoint `m * 2 ^ f` is an end of the interval of `b`, and the value is near it. -/
structure NearEnd (b : Binary) (v : ℚ) (m : Nat) (f : Int) : Prop where
  low : -150 ≤ f
  high : f ≤ 103
  short : m < 2 ^ 25
  le : v ≤ 2 ^ 25 * 2 ^ f
  near : |v - m * 2 ^ f| ≤ 1 / 2 ^ 26 * 2 ^ f
  far : (1 - 1 / 2 ^ 26) * 2 ^ f ≤ |v - b.val|

/-- If an approximation of a value leaves the interval of a number, the value is near its end. -/
theorem exists_nearEnd (canonical : Format.single.Canonical b) (pos : 0 < b.mantissa)
    (finite : b.exponent ≤ 104) {v approx : ℚ} (holds : (Rounding.of .single b).Holds v)
    (close : |approx - v| ≤ 1 / 2 ^ 51 * v) (out : ¬ (Rounding.of .single b).Holds approx) :
    ∃ m f, NearEnd b v m f := by
  have least : -149 ≤ b.exponent := canonical.least_le
  have mantissa : b.mantissa < 2 ^ 24 := canonical.mantissa_lt
  obtain ⟨low, high, -⟩ := (Rounding.holds_of_iff pos).1 holds
  obtain ⟨above, below⟩ := abs_sub_le_iff.1 close
  have unit : (0 : ℚ) < 2 ^ (b.exponent - 2) := by positivity
  have double : (2 : ℚ) ^ (b.exponent - 1) = 2 * 2 ^ (b.exponent - 2) := by
    rw [← zpow_one_add₀ two_ne_zero]
    congr 1
    ring
  have bound : (4 * b.mantissa + 2 : ℚ) ≤ 2 ^ 26 := by
    have : 4 * b.mantissa + 2 ≤ 2 ^ 26 := by omega
    exact_mod_cast this
  have left : approx ≤ b.val - Rounding.reach .single b * 2 ^ (b.exponent - 2) ∨
      b.val + 2 * 2 ^ (b.exponent - 2) ≤ approx := by
    by_contra! inside
    exact out ((Rounding.holds_of_iff pos).2 ⟨inside.1.le, inside.2.le, fun _ => inside⟩)
  rw [Format.val_eq_mul] at low high left
  obtain below | above := left
  · by_cases narrow : b.mantissa = Nat.pow 2 Format.single.fractionBits ∧
        Format.single.least < b.exponent
    · have reach : Rounding.reach .single b = 1 := if_pos narrow
      have power : b.mantissa = 2 ^ 23 := narrow.1
      have normal : -149 < b.exponent := narrow.2
      rw [reach, power] at low below
      push_cast at low below
      refine ⟨2 ^ 25 - 1, b.exponent - 2, by omega, by omega, by omega, ?_, ?_, ?_⟩
      · nlinarith
      · rw [abs_sub_le_iff]
        push_cast
        constructor <;> nlinarith
      · rw [Format.val_eq_mul, power, abs_sub_comm]
        refine le_trans ?_ (le_abs_self _)
        push_cast
        nlinarith
    · have reach : Rounding.reach .single b = 2 := if_neg narrow
      rw [reach] at low below
      push_cast at low below
      obtain ⟨m, hm⟩ : ∃ m, b.mantissa = m + 1 := Nat.exists_eq_add_of_le' pos
      rw [hm] at low high below bound
      push_cast at low high below bound
      refine ⟨2 * m + 1, b.exponent - 1, by omega, by omega, by omega, ?_, ?_, ?_⟩
      · rw [double]
        nlinarith
      · rw [double, abs_sub_le_iff]
        push_cast
        constructor <;> nlinarith
      · rw [double, Format.val_eq_mul, hm, abs_sub_comm]
        refine le_trans ?_ (le_abs_self _)
        push_cast
        nlinarith
  · refine ⟨2 * b.mantissa + 1, b.exponent - 1, by omega, by omega, by omega, ?_, ?_, ?_⟩
    · rw [double]
      nlinarith
    · rw [double, abs_sub_le_iff]
      push_cast
      constructor <;> nlinarith
    · rw [double, Format.val_eq_mul]
      refine le_trans ?_ (le_abs_self _)
      nlinarith

/-- A short decimal that equals a short binary number has a small power of ten, as that many fives
divide one of the two. -/
theorem exponent_of_exact {s m : Nat} {k f : Int} (pos : 0 < s) (hs : s < 2 ^ 34) (hm : m < 2 ^ 25)
    (value : (s * 10 ^ k : ℚ) = m * 2 ^ f) : -22 ≤ k ∧ k ≤ 22 := by
  have crossed : s * 10 ^ k.toNat * 2 ^ (-f).toNat = m * 2 ^ f.toNat * 10 ^ (-k).toNat := by
    rw [← zpow_toNat 10, ← zpow_toNat 2, ← mul_div_assoc, ← mul_div_assoc,
      div_eq_div_iff (by positivity) (by positivity)] at value
    exact_mod_cast value
  have fives : ∀ {n x e}, 0 < x → 5 ^ n ∣ x * 2 ^ e → x < 2 ^ 34 → n ≤ 22 := by
    intro n x e positive divides small
    have coprime : Nat.Coprime (5 ^ n) (2 ^ e) := Nat.Coprime.pow _ _ (by decide)
    have le := Nat.le_of_dvd positive (coprime.dvd_of_dvd_mul_right divides)
    by_contra! many
    have : 5 ^ 22 ≤ 5 ^ n := Nat.pow_le_pow_right (by decide) (by omega)
    omega
  have tens : ∀ n : Nat, 5 ^ n ∣ 10 ^ n := fun n => pow_dvd_pow_of_dvd (by decide) n
  obtain ⟨n, rfl | rfl⟩ := k.eq_nat_or_neg
  · have posM : 0 < m := Nat.pos_of_ne_zero fun zero => by simp [zero] at crossed; omega
    rw [Int.toNat_natCast, Int.toNat_neg_natCast, pow_zero, mul_one] at crossed
    have := fives posM (crossed ▸ ((tens n).mul_left s).mul_right _) (by omega)
    omega
  · rw [neg_neg, Int.toNat_natCast, Int.toNat_neg_natCast, pow_zero, mul_one] at crossed
    have := fives pos (crossed ▸ (tens n).mul_left _) hs
    omega

/-- The value of a decimal as the fraction that a single rounding takes. -/
theorem cast_decimal (s : Nat) (k : Int) :
    ((s * Nat.pow 10 k.toNat : Nat) / (Nat.pow 10 (-k).toNat : Nat) : ℚ) = s * 10 ^ k := by
  rw [← zpow_toNat 10, ← mul_div_assoc]
  push_cast [Nat.pow_eq]
  rfl

/-- A decimal that represents a number of 32 bits is read as that number. -/
theorem bits_reading (canonical : Format.single.Canonical b) (pos : 0 < b.mantissa)
    (finite : b.exponent ≤ 104) (represents : d.Represents b) :
    Format.single.bits (Format.single.round (reading d.significand d.exponent).numerator
      (reading d.significand d.exponent).denominator) = Format.single.bits b := by
  have positive : 0 < d.significand :=
    Nat.pos_of_ne_zero fun zero => represents.last (by rw [zero])
  have short : d.significand < 2 ^ 53 := represents.significand_lt.trans (by decide)
  have low := represents.le_exponent
  have high := represents.exponent_le
  by_cases inside : (Rounding.of .single b).Holds (reading d.significand d.exponent).val
  · refine Format.bits_round (by decide) canonical pos (Binary.denominator_pos _) ?_
    rwa [Binary.numerator_div_denominator]
  have close : |(reading d.significand d.exponent).val - d.val| ≤ 1 / 2 ^ 51 * d.val :=
    abs_reading_sub_le positive short (by omega) (by omega)
  obtain ⟨m, f, nearEnd⟩ := exists_nearEnd canonical pos finite represents.holds close inside
  -- the decimal is a multiple of the power of ten that belongs to the midpoint
  obtain ⟨power, finer, grid⟩ := represents.grid
  have onGrid := (gridPower_le nearEnd.low nearEnd.high (nearEnd.far.trans grid)).trans finer
  obtain ⟨zeros, hzeros⟩ := Int.eq_ofNat_of_zero_le (sub_nonneg.2 onGrid)
  have multiple : ((d.significand * 10 ^ zeros : Nat) * 10 ^ gridPower f : ℚ) = d.val := by
    rw [val, show d.exponent = zeros + gridPower f by omega, zpow_add₀ (by norm_num), zpow_natCast]
    push_cast
    ring
  obtain exact | ⟨last, faithful⟩ := faithful_of_near nearEnd.low nearEnd.high
    (Nat.mul_pos positive (Nat.pow_pos (by decide))) (multiple ▸ nearEnd.le)
    (multiple ▸ nearEnd.near)
  · rw [multiple] at exact
    obtain ⟨least, greatest⟩ :=
      exponent_of_exact positive represents.significand_lt nearEnd.short exact
    have := nearEnd.low
    rw [val_reading positive short least greatest exact (nearEnd.short.trans (by decide))
      (by omega)] at inside
    exact absurd represents.holds inside
  · cases zeros with
    | zero =>
      rw [pow_zero, mul_one, show gridPower f = d.exponent by omega, Decimal.faithful,
        beq_iff_eq] at faithful
      rw [faithful]
      refine Format.bits_round (by decide) canonical pos (Nat.pow_pos (by decide)) ?_
      rw [cast_decimal]
      exact represents.holds
    | succ zeros =>
      rw [pow_succ, ← mul_assoc, Nat.mul_mod_left] at last
      exact absurd rfl last

/-- An integer is read as that number also with a zero behind its point. -/
theorem bits_reading_integral (canonical : Format.single.Canonical b) (pos : 0 < b.mantissa)
    (represents : d.Represents b) (integral : 0 ≤ d.exponent)
    (short : d.significand * 10 ^ (d.exponent.toNat + 1) < 2 ^ 53) :
    Format.single.bits
        (Format.single.round (reading (d.significand * 10 ^ (d.exponent.toNat + 1)) (-1)).numerator
          (reading (d.significand * 10 ^ (d.exponent.toNat + 1)) (-1)).denominator) =
      Format.single.bits b := by
  have positive : 0 < d.significand :=
    Nat.pos_of_ne_zero fun zero => represents.last (by rw [zero])
  have value : ((d.significand * 10 ^ (d.exponent.toNat + 1) : Nat) * 10 ^ (-1 : ℤ) : ℚ) =
      (d.significand * 10 ^ d.exponent.toNat : Nat) * 2 ^ (0 : ℤ) := by
    rw [zpow_neg_one, zpow_zero, pow_succ]
    push_cast
    ring
  have whole : ((d.significand * 10 ^ d.exponent.toNat : Nat) : ℚ) * 2 ^ (0 : ℤ) = d.val := by
    rw [val, zpow_zero, mul_one]
    nth_rw 2 [← Int.toNat_of_nonneg integral]
    rw [zpow_natCast]
    push_cast
    rfl
  have less : d.significand * 10 ^ d.exponent.toNat < 2 ^ 53 :=
    lt_of_le_of_lt (Nat.mul_le_mul_left _ (Nat.pow_le_pow_right (by decide) (Nat.le_succ _))) short
  have read := val_reading (Nat.mul_pos positive (by positivity)) short (by norm_num) (by norm_num)
    value less (by norm_num)
  rw [value, whole] at read
  refine Format.bits_round (by decide) canonical pos (Binary.denominator_pos _) ?_
  rw [Binary.numerator_div_denominator, read]
  exact represents.holds

end Decimal

end Arbor
