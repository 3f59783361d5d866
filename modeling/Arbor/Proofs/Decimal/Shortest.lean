import Arbor.Proofs.Rounding

/-!
# Shortest decimals are in the interval of their number

The search for the shortest decimal ends within ten digits with a decimal that is rounded to the
number. It is one of the two multiples of its power of ten around the number, so it is off by at
most that power. This bounds from below how coarse the grid of a decimal near the end of the
interval is.

## Main definitions

* `Decimal.val`: the value of a decimal.

## Main statements

* `Decimal.shortest_spec`: what `Decimal.shortest` finds.
-/

namespace Arbor.Decimal

def val (d : Decimal) : ℚ := d.significand * 10 ^ d.exponent

/-! ## Lengths -/

theorem lt_ten_pow_length (n : Nat) : n < 10 ^ length n := by
  fun_induction length n with
  | case1 => simp
  | case2 n h ih =>
    rw [pow_succ]
    omega

theorem ten_pow_le_of_length {n : Nat} (pos : 0 < n) : 10 ^ (length n - 1) ≤ n := by
  fun_induction length n with
  | case1 => omega
  | case2 n h ih =>
    rw [Nat.add_sub_cancel]
    by_cases small : n / 10 = 0
    · rw [small, length, if_pos rfl]
      exact pos
    · have := ih (Nat.pos_of_ne_zero small)
      obtain ⟨rest, hrest⟩ : ∃ rest, length (n / 10) = rest + 1 := by
        rw [length, if_neg small]
        exact ⟨_, rfl⟩
      rw [hrest, Nat.add_sub_cancel] at this
      rw [hrest, pow_succ]
      omega

theorem length_pos {n : Nat} (pos : 0 < n) : 0 < length n := by
  rw [length, if_neg (Nat.ne_of_gt pos)]
  exact Nat.succ_pos _

theorem floorLog10_spec {n d : Nat} (hn : 0 < n) (hd : 0 < d) :
    (10 : ℚ) ^ floorLog10 n d ≤ n / d ∧ (n / d : ℚ) < 10 ^ (floorLog10 n d + 1) := by
  have hnq : (0 : ℚ) < n := by exact_mod_cast hn
  have hdq : (0 : ℚ) < d := by exact_mod_cast hd
  rw [floorLog10]
  split_ifs with le
  · have pos := Nat.div_pos le hd
    obtain ⟨len, hlen⟩ : ∃ len, length (n / d) = len + 1 :=
      Nat.exists_eq_succ_of_ne_zero (Nat.ne_of_gt (length_pos pos))
    have low := ten_pow_le_of_length pos
    have high := lt_ten_pow_length (n / d)
    rw [hlen] at low high ⊢
    rw [Nat.add_sub_cancel, Nat.le_div_iff_mul_le hd] at low
    rw [Nat.div_lt_iff_lt_mul hd] at high
    rw [le_div_iff₀ hdq, div_lt_iff₀ hdq]
    push_cast
    rw [add_sub_cancel_right]
    constructor
    · exact_mod_cast low
    · exact_mod_cast high
  · have pos : 0 < (d - 1) / n := Nat.div_pos (by omega) hn
    obtain ⟨len, hlen⟩ : ∃ len, length ((d - 1) / n) = len + 1 :=
      Nat.exists_eq_succ_of_ne_zero (Nat.ne_of_gt (length_pos pos))
    have low := ten_pow_le_of_length pos
    have high := lt_ten_pow_length ((d - 1) / n)
    rw [hlen] at low high ⊢
    rw [Nat.add_sub_cancel, Nat.le_div_iff_mul_le hn] at low
    rw [Nat.div_lt_iff_lt_mul hn] at high
    have high : (d : ℚ) ≤ 10 ^ (len + 1) * n := by
      have : d ≤ 10 ^ (len + 1) * n := by omega
      exact_mod_cast this
    have low : (10 : ℚ) ^ len * n < d := by
      have : 10 ^ len * n < d := by omega
      exact_mod_cast this
    have next : -((len + 1 : Nat) : ℤ) + 1 = -(len : ℤ) := by
      push_cast
      ring
    rw [next, zpow_neg, zpow_neg, zpow_natCast, zpow_natCast, le_div_iff₀ hdq, div_lt_iff₀ hdq,
      inv_mul_le_iff₀ (by positivity), lt_inv_mul_iff₀ (by positivity)]
    exact ⟨high, low⟩

/-! ## Multiples of a power of ten and the interval -/

namespace Rounding

variable (r : Rounding)

def val : ℚ := r.value * 2 ^ r.exponent

def weight (power : ℤ) : ℚ := 2 ^ (-r.exponent).toNat * 10 ^ (-power).toNat

theorem weight_pos (power : ℤ) : 0 < r.weight power := by
  rw [weight]
  positivity

theorem cast_decimalUnit (power : ℤ) :
    (r.decimalUnit power : ℚ) = 10 ^ power * r.weight power := by
  rw [decimalUnit, weight, ← zpow_toNat 10]
  push_cast [Nat.pow_eq]
  field_simp

theorem cast_binaryUnit (power : ℤ) :
    (r.binaryUnit power : ℚ) = 2 ^ r.exponent * r.weight power := by
  rw [binaryUnit, weight, ← zpow_toNat 2]
  push_cast [Nat.pow_eq]
  field_simp

theorem decimalUnit_pos (power : ℤ) : 0 < r.decimalUnit power :=
  Nat.mul_pos (Nat.pow_pos (by decide)) (Nat.two_pow_pos _)

theorem contains_iff {power : ℤ} {significand : Nat} :
    r.contains power significand = true ↔ r.Holds (significand * 10 ^ power) := by
  have weight := r.weight_pos power
  have le : ∀ m, m * r.binaryUnit power ≤ significand * r.decimalUnit power ↔
      (m * 2 ^ r.exponent : ℚ) ≤ significand * 10 ^ power := by
    intro m
    rw [← @Nat.cast_le ℚ]
    push_cast [cast_decimalUnit, cast_binaryUnit]
    rw [← mul_assoc, ← mul_assoc, mul_le_mul_iff_of_pos_right weight]
  have ge : ∀ m, significand * r.decimalUnit power ≤ m * r.binaryUnit power ↔
      (significand * 10 ^ power : ℚ) ≤ m * 2 ^ r.exponent := by
    intro m
    rw [← @Nat.cast_le ℚ]
    push_cast [cast_decimalUnit, cast_binaryUnit]
    rw [← mul_assoc, ← mul_assoc, mul_le_mul_iff_of_pos_right weight]
  rw [contains, Holds]
  split_ifs
  · simp only [Bool.and_eq_true, decide_eq_true_eq, le, ge]
  · simp only [Bool.and_eq_true, decide_eq_true_eq, ← not_le, le, ge]

theorem below_spec (power : ℤ) : r.below power * 10 ^ power ≤ r.val ∧
    r.val < (r.below power + 1) * 10 ^ power := by
  have weight := r.weight_pos power
  have low : r.below power * r.decimalUnit power ≤ r.value * r.binaryUnit power :=
    Nat.div_mul_le_self _ _
  have high : r.value * r.binaryUnit power < (r.below power + 1) * r.decimalUnit power :=
    (Nat.lt_div_mul_add (r.decimalUnit_pos power)).trans_eq (Nat.succ_mul _ _).symm
  rw [← @Nat.cast_le ℚ] at low
  rw [← @Nat.cast_lt ℚ] at high
  push_cast [cast_decimalUnit, cast_binaryUnit] at low high
  rw [← mul_assoc, ← mul_assoc, mul_le_mul_iff_of_pos_right weight] at low
  rw [← mul_assoc, ← mul_assoc, mul_lt_mul_iff_of_pos_right weight] at high
  exact ⟨low, high⟩

theorem nearest_eq (power : ℤ) :
    r.nearest power = r.below power ∨ r.nearest power = r.below power + 1 := by
  simp only [nearest, below, roundHalfEven]
  split_ifs
  · exact .inl rfl
  · exact .inr rfl
  · omega

/-- What is picked is in the interval and next to the number. -/
theorem pick_spec {power : ℤ} {significand : Nat} (h : r.pick power = some significand) :
    r.Holds (significand * 10 ^ power) ∧ |significand * 10 ^ power - r.val| ≤ 10 ^ power := by
  have around : r.contains power significand = true ∧
      (significand = r.below power ∨ significand = r.below power + 1) := by
    rw [pick] at h
    split at h
    · next low high =>
      obtain rfl := Option.some.inj h
      obtain same | same := r.nearest_eq power
      · exact ⟨same ▸ low, .inl same⟩
      · exact ⟨same ▸ high, .inr same⟩
    · next low _ => exact ⟨Option.some.inj h ▸ low, .inl (Option.some.inj h).symm⟩
    · next _ high => exact ⟨Option.some.inj h ▸ high, .inr (Option.some.inj h).symm⟩
    · simp at h
  obtain ⟨low, high⟩ := r.below_spec power
  have unit : (0 : ℚ) < 10 ^ power := by positivity
  refine ⟨r.contains_iff.1 around.1, ?_⟩
  obtain rfl | rfl := around.2
  · rw [abs_sub_le_iff]
    constructor <;> nlinarith
  · push_cast
    rw [abs_sub_le_iff]
    constructor <;> nlinarith

/-- On a grid finer than the upper half of the interval something is picked. -/
theorem pick_ne_none {power : ℤ}
    (fine : r.val + 10 ^ power < r.upper * 2 ^ r.exponent) (least : r.lower ≤ r.value) :
    r.pick power ≠ none := by
  obtain ⟨low, high⟩ := r.below_spec power
  have unit : (0 : ℚ) < 2 ^ r.exponent := by positivity
  have start : r.lower * 2 ^ r.exponent ≤ r.val := by
    have : (r.lower : ℚ) ≤ r.value := by exact_mod_cast least
    rw [val]
    gcongr
  have above : r.contains power (r.below power + 1) = true := by
    rw [contains_iff, Holds]
    push_cast
    have less : r.lower * 2 ^ r.exponent < (r.below power + 1) * (10 : ℚ) ^ power :=
      start.trans_lt high
    have more : (r.below power + 1) * (10 : ℚ) ^ power < r.upper * 2 ^ r.exponent := by linarith
    split_ifs
    · exact ⟨less.le, more.le⟩
    · exact ⟨less, more⟩
  rw [pick, above]
  cases r.contains power (r.below power) <;> simp

/-- If the grid after `later` refinements has something to pick, the search ends there or before. -/
theorem search_spec {attempts later : Nat} (power : ℤ) (enough : later < attempts)
    (found : r.pick (power - later) ≠ none) :
    ∃ steps ≤ later, ∃ significand, r.search attempts power = ⟨significand, power - steps⟩ ∧
      r.pick (power - steps) = some significand := by
  induction later generalizing attempts power with
  | zero =>
    obtain ⟨attempts, rfl⟩ := Nat.exists_eq_succ_of_ne_zero (Nat.ne_of_gt enough)
    obtain ⟨significand, h⟩ := Option.ne_none_iff_exists'.1 found
    refine ⟨0, le_rfl, significand, ?_, h⟩
    rw [Nat.cast_zero, sub_zero] at h
    simp [search, h]
  | succ later ih =>
    obtain ⟨attempts, rfl⟩ :=
      Nat.exists_eq_succ_of_ne_zero (Nat.ne_of_gt (Nat.zero_lt_of_lt enough))
    cases h : r.pick power with
    | some significand =>
      exact ⟨0, Nat.zero_le _, significand, by simp [search, h], by simpa using h⟩
    | none =>
      have shift : ∀ steps : Nat, power - 1 - (steps : ℤ) = power - (steps + 1 : Nat) := by
        intro steps
        push_cast
        ring
      obtain ⟨steps, le, significand, hsearch, hpick⟩ :=
        @ih attempts (power - 1) (by omega) (by rwa [shift])
      rw [shift] at hsearch hpick
      refine ⟨steps + 1, by omega, significand, ?_, hpick⟩
      rw [search, h]
      exact hsearch

theorem val_of (format : Format) (b : Binary) : (Rounding.of format b).val = b.val := by
  rw [Format.val_eq_mul, val]
  change ((4 * b.mantissa : Nat) : ℚ) * 2 ^ (b.exponent - 2) = _
  push_cast
  rfl

end Rounding

/-! ## The shortest decimal -/

theorem trim_spec {d : Decimal} (pos : 0 < d.significand) : d.trim.significand % 10 ≠ 0 ∧
    ∃ zeros : Nat, d.trim.exponent = d.exponent + zeros ∧
      d.significand = d.trim.significand * 10 ^ zeros := by
  fun_induction trim d with
  | case1 d zero => omega
  | case2 d nonzero divides ih =>
    have shorter : 0 < d.significand / 10 := by omega
    obtain ⟨last, zeros, exponent, significand⟩ := ih shorter
    refine ⟨last, zeros + 1, ?_, ?_⟩
    · rw [exponent]
      push_cast
      ring
    · rw [pow_succ, ← Nat.mul_assoc, ← significand]
      exact (Nat.div_mul_cancel (Nat.dvd_of_mod_eq_zero divides)).symm
  | case3 d nonzero last => exact ⟨last, 0, by simp, by simp⟩

theorem val_trim {d : Decimal} (pos : 0 < d.significand) : d.trim.val = d.val := by
  obtain ⟨-, zeros, exponent, significand⟩ := trim_spec pos
  rw [val, val, exponent, zpow_add₀ (by norm_num), zpow_natCast, significand]
  push_cast
  ring

structure Represents (d : Decimal) (b : Binary) : Prop where
  /-- It is rounded to the number. -/
  holds : (Rounding.of .single b).Holds d.val
  /-- It is next to the number on a grid at least as fine as its last digit. -/
  grid : ∃ power ≤ d.exponent, |d.val - b.val| ≤ 10 ^ power
  last : d.significand % 10 ≠ 0
  significand_lt : d.significand < 2 ^ 34
  le_exponent : -54 ≤ d.exponent
  exponent_le : d.exponent ≤ 38

theorem numerator_pos {b : Binary} (pos : 0 < b.mantissa) : 0 < b.numerator :=
  Nat.mul_pos pos (Nat.two_pow_pos _)

theorem val_lt {b : Binary} (canonical : Format.single.Canonical b) :
    b.val < 2 ^ 24 * (4 * 2 ^ (b.exponent - 2)) := by
  have unit : (0 : ℚ) < 2 ^ (b.exponent - 2) := by positivity
  have short : (b.mantissa : ℚ) < 2 ^ 24 := by exact_mod_cast canonical.mantissa_lt
  rw [Format.val_eq_mul]
  nlinarith

/-- The search stops after at most nine refinements of the first grid. -/
theorem search_single {b : Binary} (canonical : Format.single.Canonical b) (pos : 0 < b.mantissa) :
    ∃ steps : Nat, steps ≤ 9 ∧ ∃ significand,
      (Rounding.of .single b).search enoughDigits (floorLog10 b.numerator b.denominator) =
        ⟨significand, floorLog10 b.numerator b.denominator - steps⟩ ∧
      (Rounding.of .single b).pick (floorLog10 b.numerator b.denominator - steps) =
        some significand := by
  refine (Rounding.of .single b).search_spec _ (show 9 < enoughDigits by decide) ?_
  obtain ⟨low, -⟩ := floorLog10_spec (numerator_pos pos) b.denominator_pos
  rw [b.numerator_div_denominator] at low
  have less := val_lt canonical
  apply Rounding.pick_ne_none
  · rw [Rounding.val_of, zpow_sub₀ (by norm_num)]
    change _ < ((4 * b.mantissa + 2 : Nat) : ℚ) * 2 ^ (b.exponent - 2)
    push_cast
    rw [add_mul, ← Format.val_eq_mul, add_lt_add_iff_left, div_lt_iff₀ (by positivity)]
    have unit : (0 : ℚ) < 2 ^ (b.exponent - 2) := by positivity
    linarith
  · exact Nat.sub_le _ _

theorem shortest_represents {b : Binary} (canonical : Format.single.Canonical b)
    (pos : 0 < b.mantissa) (finite : b.exponent ≤ 104) : (shortest .single b).Represents b := by
  obtain ⟨steps, few, significand, hsearch, hpick⟩ := search_single canonical pos
  obtain ⟨below, above⟩ := floorLog10_spec (numerator_pos pos) b.denominator_pos
  rw [b.numerator_div_denominator] at below above
  rw [shortest, if_neg (Nat.ne_of_gt pos)]
  dsimp only
  rw [hsearch]
  generalize floorLog10 b.numerator b.denominator = first at *
  obtain ⟨holds, near⟩ := (Rounding.of .single b).pick_spec hpick
  rw [Rounding.val_of] at near
  obtain ⟨low, high, -⟩ := (Rounding.holds_of_iff pos).1 holds
  have unit : (0 : ℚ) < 2 ^ (b.exponent - 2) := by positivity
  have large : 4 * 2 ^ (b.exponent - 2) ≤ b.val := by
    have : (1 : ℚ) ≤ b.mantissa := by exact_mod_cast pos
    rw [Format.val_eq_mul]
    nlinarith
  have reach : (Rounding.reach .single b : ℚ) ≤ 2 := by exact_mod_cast Rounding.reach_le
  have power : (0 : ℚ) < 10 ^ (first - steps) := by positivity
  have nonzero : 0 < significand := by
    have : (0 : ℚ) < significand * 10 ^ (first - steps) := by nlinarith
    exact Nat.pos_of_ne_zero fun zero => by simp [zero] at this
  have few_digits : significand < 2 ^ 34 := by
    have : (10 : ℚ) ^ (first + 1) ≤ 10 ^ 10 * 10 ^ (first - steps) := by
      rw [← zpow_natCast, ← zpow_add₀ (by norm_num)]
      exact zpow_le_zpow_right₀ (by norm_num) (by push_cast; omega)
    have : (significand : ℚ) * 10 ^ (first - steps) < 2 ^ 34 * 10 ^ (first - steps) := by
      norm_num at this ⊢
      linarith
    rw [mul_lt_mul_iff_of_pos_right power] at this
    exact_mod_cast this
  obtain ⟨last, zeros, exponent, trimmed⟩ := trim_spec (d := ⟨significand, first - steps⟩) nonzero
  have value := val_trim (d := ⟨significand, first - steps⟩) nonzero
  generalize trim ⟨significand, first - steps⟩ = d at *
  have value : d.val = significand * 10 ^ (first - steps) := value
  dsimp only at exponent trimmed
  have digit : 0 < d.significand := Nat.pos_of_ne_zero fun zero => by simp [zero] at last
  rw [← value] at holds near high
  refine ⟨holds, ⟨first - steps, by omega, near⟩, last, ?_, ?_, ?_⟩
  · exact (Nat.le_of_dvd nonzero ⟨_, trimmed⟩).trans_lt few_digits
  · -- the least number is above `10 ^ (-45)`
    have least : (10 : ℚ) ^ (-45 : ℤ) < 4 * 2 ^ (b.exponent - 2) := by
      have : (2 : ℚ) ^ (-151 : ℤ) ≤ 2 ^ (b.exponent - 2) :=
        zpow_le_zpow_right₀ one_le_two (by have : -149 ≤ b.exponent := canonical.least_le; omega)
      refine lt_of_lt_of_le ?_ (mul_le_mul_of_nonneg_left this (by norm_num))
      norm_num
    have := (zpow_lt_zpow_iff_right₀ (by norm_num : (1 : ℚ) < 10)).1
      ((least.trans_le large).trans above)
    omega
  · -- the greatest number is below `10 ^ 39`, also with half a unit more
    have greatest : (10 : ℚ) ^ d.exponent < 10 ^ (39 : ℤ) := by
      have one : (1 : ℚ) ≤ d.significand := by exact_mod_cast digit
      have : (2 : ℚ) ^ (b.exponent - 2) ≤ 2 ^ (102 : ℤ) :=
        zpow_le_zpow_right₀ one_le_two (by omega)
      have := val_lt canonical
      have : (10 : ℚ) ^ d.exponent ≤ d.val := le_mul_of_one_le_left (by positivity) one
      norm_num at *
      linarith
    have := (zpow_lt_zpow_iff_right₀ (by norm_num : (1 : ℚ) < 10)).1 greatest
    omega

end Arbor.Decimal
