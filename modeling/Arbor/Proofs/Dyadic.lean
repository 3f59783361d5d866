import Mathlib
import Arbor.Proofs.Float32

/-!
# Floats as dyadic numbers

A finite float has an exact value, a multiple of a power of two. Comparisons are those of the
values, and conversions and quotients are exact whenever a float can hold the exact result.

## Main definitions

* `Float32.value?`: the exact value of a finite float.

## Main statements

* `Float32.lt_iff_value_lt`: floats are compared as their values.
* `Float32.eq_of_value?_none`: the floats without a value, with `Float32.lt_inf`,
  `Float32.not_lt_neg_inf` and `Float32.not_lt_nan` for how others compare with them.
* `Float32.exists_value`: which numbers a float can hold.
* `Float32.natCast_eq`, `Float32.div_eq_of_value`: exact conversion and division.
-/

namespace Arbor

/-! ## The order of a format -/

section

variable {format : Format} {b c : Binary}

theorem Binary.val_pos_iff : 0 < b.val ↔ 0 < b.mantissa := by
  have unit : (0 : ℚ) < 2 ^ b.exponent := by positivity
  rw [Binary.val, mul_pos_iff_of_pos_right unit, Nat.cast_pos]

theorem Format.Canonical.val_lt_of_exponent_lt (precise : 0 < format.precision)
    (hb : format.Canonical b) (hc : format.Canonical c) (less : b.exponent < c.exponent) :
    b.val < c.val := by
  have normal : (2 : ℚ) ^ format.fractionBits ≤ c.mantissa := by
    have := hc.normal.resolve_left (by have := hb.least_le; omega)
    exact_mod_cast this
  have short : (b.mantissa : ℚ) < 2 ^ format.precision := by exact_mod_cast hb.mantissa_lt
  have precision : format.precision = format.fractionBits + 1 := by
    rw [Format.fractionBits]
    omega
  calc b.val < 2 ^ format.precision * 2 ^ b.exponent := by
        exact mul_lt_mul_of_pos_right short (by positivity)
    _ = 2 ^ format.fractionBits * 2 ^ (b.exponent + 1) := by
        rw [precision, pow_succ, zpow_add_one₀ two_ne_zero]
        ring
    _ ≤ c.mantissa * 2 ^ c.exponent := by
        gcongr
        · exact one_le_two
        · exact less

/-- Numbers of a format are ordered by their exponents first. -/
theorem Format.Canonical.val_lt_iff (precise : 0 < format.precision)
    (hb : format.Canonical b) (hc : format.Canonical c) : b.val < c.val ↔
      b.exponent < c.exponent ∨ b.exponent = c.exponent ∧ b.mantissa < c.mantissa := by
  rcases lt_trichotomy b.exponent c.exponent with less | same | less
  · simp [less, hb.val_lt_of_exponent_lt precise hc less]
  · have unit : (0 : ℚ) < 2 ^ c.exponent := by positivity
    simp [Binary.val, same, mul_lt_mul_iff_of_pos_right unit]
  · have := hc.val_lt_of_exponent_lt precise hb less
    simp [less.not_gt, less.ne', this.le]

end

namespace Float32

open Float.Model Float.Model.UnpackedFloat

/-! ## Values -/

def signed (negative : Bool) (b : Binary) : ℚ := if negative then -b.val else b.val

def value? (x : Float32) : Option ℚ :=
  (Binary.ofFloat32? x).map fun (negative, b) => signed negative b

variable {x y : Float32} {u v : ℚ} {negative : Bool} {b : Binary}

theorem value?_eq_some : value? x = some v ↔
    ∃ negative b, Binary.ofFloat32? x = some (negative, b) ∧ signed negative b = v := by
  simp [value?]

/-- A float with a positive value. -/
theorem exists_size (value : value? x = some v) (pos : 0 < v) :
    ∃ b, Binary.ofFloat32? x = some (false, b) ∧ 0 < b.mantissa ∧ b.val = v := by
  obtain ⟨negative, b, size, rfl⟩ := value?_eq_some.1 value
  have nonneg : 0 ≤ b.val := by rw [Binary.val]; positivity
  cases negative with
  | false => exact ⟨b, size, Binary.val_pos_iff.1 pos, rfl⟩
  | true =>
    simp only [signed, if_true] at pos
    linarith

/-! ## Order -/

theorem unpacked_of_pos (pos : 0 < b.mantissa) :
    unpacked negative b = .finite (signOf negative) b.mantissa b.exponent pos :=
  dif_neg pos.ne'

theorem unpacked_of_zero (zero : b.mantissa = 0) : unpacked negative b = .zero (signOf negative) :=
  dif_pos zero

/-- Unpacked numbers are compared as their values. -/
theorem compare_unpacked {other : Bool} {c : Binary} (hb : Format.single.Canonical b)
    (hc : Format.single.Canonical c) :
    (unpacked negative b).compare (unpacked other c) = some .lt ↔
      signed negative b < signed other c := by
  have less := hb.val_lt_iff (by decide) hc
  have greater := hc.val_lt_iff (by decide) hb
  have zero : ∀ {d : Binary}, d.mantissa = 0 → d.val = 0 := by
    intro d empty
    simp [Binary.val, empty]
  rcases b.mantissa.eq_zero_or_pos with nb | pb <;> rcases c.mantissa.eq_zero_or_pos with nc | pc
  · rw [unpacked_of_zero nb, unpacked_of_zero nc]
    cases negative <;> cases other <;> simp [UnpackedFloat.compare, signed, zero nb, zero nc]
  · have above := Binary.val_pos_iff.2 pc
    rw [unpacked_of_zero nb, unpacked_of_pos pc]
    cases negative <;> cases other <;>
      simp [UnpackedFloat.compare, signOf, signed, zero nb, above, above.le]
  · have above := Binary.val_pos_iff.2 pb
    rw [unpacked_of_pos pb, unpacked_of_zero nc]
    cases negative <;> cases other <;>
      simp [UnpackedFloat.compare, signOf, signed, zero nc, above, above.le]
  · have above := Binary.val_pos_iff.2 pb
    have beyond := Binary.val_pos_iff.2 pc
    rw [unpacked_of_pos pb, unpacked_of_pos pc]
    cases negative <;> cases other <;>
      simp only [UnpackedFloat.compare, signOf, signed, if_true, if_false, Bool.false_eq_true,
        Option.some.injEq, Ordering.swap_eq_lt, Ordering.then_eq_lt, Ordering.then_eq_gt,
        compare_lt_iff_lt, compare_gt_iff_gt, compare_eq_iff_eq, neg_lt_neg_iff, less, greater,
        reduceCtorEq]
    · simp only [false_iff, not_lt]
      linarith
    · simp only [true_iff]
      linarith
    · simp only [eq_comm]

/-- Floats are compared as their values. -/
theorem lt_iff_value_lt (hx : value? x = some u) (hy : value? y = some v) :
    x < y ↔ u < v := by
  obtain ⟨negative, b, sizex, rfl⟩ := value?_eq_some.1 hx
  obtain ⟨other, c, sizey, rfl⟩ := value?_eq_some.1 hy
  rw [lt_iff, unpack_of_some sizex, unpack_of_some sizey, beq_iff_eq,
    compare_unpacked (canonical_of_some sizex) (canonical_of_some sizey)]

theorem eq_of_unpack {f : UnpackedFloat} (same : x.toModel.unpack = f) :
    x = .ofModel (.pack f) := by
  rw [← same, ← Float32.toBits_inj, ← UInt32.toBitVec_inj]
  exact (pack_unpack_of_valid x.toModel.valid).symm

/-- Floats without a value. -/
theorem eq_of_value?_none (valueless : value? x = none) :
    x = Float32.nan ∨ x = Float32.inf ∨ x = -Float32.inf := by
  rcases unpack_of_none (by simpa [value?] using valueless) with nan | ⟨_ | _, infinite⟩
  · exact .inl ((eq_of_unpack nan).trans (by decide))
  · exact .inr (.inr ((eq_of_unpack infinite).trans (by decide)))
  · exact .inr (.inl ((eq_of_unpack infinite).trans (by decide)))

theorem lt_inf (hx : value? x = some u) : x < Float32.inf := by
  obtain ⟨negative, b, size, -⟩ := value?_eq_some.1 hx
  have infinite : Float32.inf.toModel.unpack = .infinity .positive := rfl
  rw [lt_iff, unpack_of_some size, infinite, unpacked]
  split <;> rfl

theorem not_lt_neg_inf (hx : value? x = some u) : ¬ x < -Float32.inf := by
  obtain ⟨negative, b, size, -⟩ := value?_eq_some.1 hx
  have infinite : (-Float32.inf).toModel.unpack = .infinity .negative := rfl
  rw [lt_iff, unpack_of_some size, infinite, unpacked]
  split <;> simp [UnpackedFloat.compare]

theorem not_lt_nan (x : Float32) : ¬ x < Float32.nan := by
  have undefined : Float32.nan.toModel.unpack = .notANumber := rfl
  rw [lt_iff, undefined]
  cases x.toModel.unpack <;> simp [UnpackedFloat.compare]

/-! ## Packing -/

/-- The range of the 32-bit format. -/
theorem canonical_single_iff : Format.single.Canonical b ↔ b.mantissa < 2 ^ 24 ∧
    -149 ≤ b.exponent ∧ (b.exponent = -149 ∨ 2 ^ 23 ≤ b.mantissa) :=
  ⟨fun ⟨short, low, normal⟩ => ⟨short, low, normal⟩,
    fun ⟨short, low, normal⟩ => ⟨short, low, normal⟩⟩

theorem toNat_packComponents (negative : Bool) (e : BitVec 8) (m : BitVec 23) :
    (packComponents Format.binary32 (signOf negative) e m).toNat =
      negative.toNat * 2 ^ 31 + e.toNat * 2 ^ 23 + m.toNat := by
  have sign : (signOf negative).toBitVec.toNat = negative.toNat := by cases negative <;> rfl
  rw [packComponents, toNat_append, toNat_append, sign]
  ring

/-- The bits of a packed number. -/
theorem toNat_pack (canonical : Format.single.Canonical b) (high : b.exponent ≤ 104) :
    (UnpackedFloat.pack Format.binary32 (unpacked negative b)).toNat =
      negative.toNat * 2 ^ 31 + (b.exponent + 149).toNat * 2 ^ 23 + b.mantissa := by
  obtain ⟨short, low, normal⟩ := canonical_single_iff.1 canonical
  rcases b.mantissa.eq_zero_or_pos with zero | pos
  · rw [unpacked_of_zero zero]
    refine (toNat_packComponents negative 0 0).trans ?_
    simp
    omega
  · have bias : Format.binary32.exponentBias = 127 := rfl
    have fits : ¬ 2 ^ 8 ≤ (b.exponent + (127 : Nat) + (23 : Nat)).toNat + 1 := by omega
    have full : b.mantissa.log2 + 1 = 24 ↔ 2 ^ 23 ≤ b.mantissa := by
      have := (Nat.log2_lt pos.ne').2 short
      rw [← Nat.le_log2 pos.ne']
      omega
    simp only [unpacked_of_pos pos, UnpackedFloat.pack, bias, fits, if_false, Format.mantissaBits,
      full]
    split_ifs
    · rw [toNat_packComponents, BitVec.toNat_ofNat, BitVec.toNat_ofNat]
      omega
    · rw [toNat_packComponents, BitVec.toNat_ofNat, BitVec.toNat_ofNat]
      omega

/-- Packing keeps sign and size. -/
theorem ofFloat32?_pack (canonical : Format.single.Canonical b) (high : b.exponent ≤ 104) :
    Binary.ofFloat32? (.ofModel (.pack (unpacked negative b))) = some (negative, b) := by
  have bits : (Float32.ofModel (.pack (unpacked negative b))).toBits.toNat = _ :=
    @toNat_pack negative b canonical high
  obtain ⟨short, low, normal⟩ := canonical_single_iff.1 canonical
  rw [ofFloat32?_eq, bits]
  have sign : (0x80000000 ≤ negative.toNat * 2 ^ 31 + (b.exponent + 149).toNat * 2 ^ 23 + b.mantissa
      : Bool) = negative := by
    cases negative <;> simp <;> omega
  have bit := negative.toNat_le
  rw [sign, if_neg (by omega)]
  obtain ⟨m, e⟩ := b
  simp only at short low normal high ⊢
  split_ifs
  · congr 3 <;> omega
  · congr 3 <;> omega

/-- Small multiples of not too small powers of two are values of floats. -/
theorem exists_value {m : Nat} {e : ℤ} (pos : 0 < m) (short : m < 2 ^ 24) (low : -126 ≤ e)
    (high : e ≤ 104) : ∃ z, value? z = some ((m : ℚ) * 2 ^ e) := by
  have log := (Nat.log2_lt pos.ne').2 short
  obtain ⟨shift, bits⟩ : ∃ shift, m.log2 + shift = 23 := ⟨23 - m.log2, by omega⟩
  have canonical : Format.single.Canonical ⟨m * 2 ^ shift, e - shift⟩ := by
    refine canonical_single_iff.2 ⟨?_, by simp only; omega, .inr ?_⟩
    · calc m * 2 ^ shift < 2 ^ (m.log2 + 1) * 2 ^ shift :=
            Nat.mul_lt_mul_of_pos_right Nat.lt_log2_self (by positivity)
        _ = 2 ^ 24 := by rw [← pow_add, add_right_comm, bits]
    · calc 2 ^ 23 = 2 ^ m.log2 * 2 ^ shift := by rw [← pow_add, bits]
        _ ≤ m * 2 ^ shift := Nat.mul_le_mul_right _ (Nat.log2_self_le pos.ne')
  refine ⟨.ofModel (.pack (unpacked false ⟨m * 2 ^ shift, e - shift⟩)), ?_⟩
  rw [value?, ofFloat32?_pack canonical (by simp only; omega)]
  have scale : (2 : ℚ) ^ shift * 2 ^ (e - shift) = 2 ^ e := by
    rw [zpow_sub₀ two_ne_zero, zpow_natCast]
    field_simp
  simp [signed, Binary.val, mul_assoc, scale]

/-! ## Exact operations -/

theorem shiftRight_exact (m n : Nat) :
    (⟨m * 2 ^ n, false, false⟩ : ExtendedMantissa) >>> n = ⟨m, false, false⟩ := by
  change n.repeat ExtendedMantissa.shiftRightOne _ = _
  induction n generalizing m with
  | zero => simp [Nat.repeat]
  | succ n ih =>
    rw [Nat.repeat, pow_succ', ← mul_assoc, ih]
    simp [ExtendedMantissa.shiftRightOne]

theorem totalExponent_mul_pow {m : Nat} (pos : 0 < m) (n : Nat) (e : ℤ) :
    totalExponent (m * 2 ^ n) e = totalExponent m (e + n) := by
  have log : (m * 2 ^ n).log2 = m.log2 + n := by
    induction n with
    | zero => simp
    | succ n ih => rw [pow_succ', mul_left_comm, Nat.log2_two_mul (by positivity), ih, add_assoc]
  rw [totalExponent, totalExponent, log]
  push_cast
  ring

variable {spec : Float.Model.Format}

theorem shiftToTargetExponent_exact {m n : Nat} {e : ℤ} (pos : 0 < m)
    (target : spec.targetExponent (totalExponent m (e + n)) = e + n) :
    shiftToTargetExponent spec (m * 2 ^ n) e .exact = (⟨m, false, false⟩, e + n) := by
  have amount : (e + n - e).toNat = n := by omega
  simp only [shiftToTargetExponent, shiftToExponent, totalExponent_mul_pow pos, target, amount,
    ExtendedMantissa.ofMantissaAndAccuracy, shiftRight_exact]

theorem targetExponent_eq (canonical : Format.single.Canonical b) (pos : 0 < b.mantissa) :
    Format.binary32.targetExponent (totalExponent b.mantissa b.exponent) = b.exponent := by
  obtain ⟨short, low, normal⟩ := canonical_single_iff.1 canonical
  rw [← Nat.log2_lt pos.ne'] at short
  rw [← Nat.le_log2 pos.ne'] at normal
  have least : Format.binary32.minExponent = -149 := rfl
  have bits : Format.binary32.mantissaBits = 24 := rfl
  simp only [Format.targetExponent, totalExponent, least, bits]
  omega

/-- A number of the format is rounded to itself, with however small an exponent it is written. -/
theorem roundWithAccuracy_eq (canonical : Format.single.Canonical b) (pos : 0 < b.mantissa)
    {start : ℤ} (le : start ≤ b.exponent) :
    roundWithAccuracy Format.binary32 .positive
      (b.mantissa * 2 ^ (b.exponent - start).toNat) start .exact = unpacked false b := by
  have target := targetExponent_eq canonical pos
  have reached : start + ((b.exponent - start).toNat : ℤ) = b.exponent := by omega
  have first := @shiftToTargetExponent_exact Format.binary32 b.mantissa
    (b.exponent - start).toNat start pos (by rw [reached, target])
  have second := @shiftToTargetExponent_exact Format.binary32 b.mantissa 0 b.exponent pos
    (by simpa using target)
  rw [reached] at first
  simp only [pow_zero, mul_one, Nat.cast_zero, add_zero] at second
  simp only [roundWithAccuracy, first, ExtendedMantissa.roundedMantissa, ExtendedMantissa.accuracy,
    Accuracy.roundToNearestEven, second]
  rfl

theorem mul_pow_eq_of_val_eq {m k : Nat} {a c t : ℤ} (same : (m : ℚ) * 2 ^ a = k * 2 ^ c)
    (ha : t ≤ a) (hc : t ≤ c) : m * 2 ^ (a - t).toNat = k * 2 ^ (c - t).toNat := by
  have scale : ∀ {d : ℤ}, t ≤ d → ((2 ^ (d - t).toNat : Nat) : ℚ) = 2 ^ d / 2 ^ t := by
    intro d le
    rw [← zpow_sub₀ two_ne_zero]
    conv_rhs => rw [← Int.toNat_of_nonneg (sub_nonneg.2 le)]
    push_cast
    rfl
  have : ((m * 2 ^ (a - t).toNat : Nat) : ℚ) = (k * 2 ^ (c - t).toNat : Nat) := by
    rw [Nat.cast_mul, Nat.cast_mul, scale ha, scale hc, ← mul_div_assoc, same, mul_div_assoc]
  exact_mod_cast this

theorem totalExponent_eq_of_val_eq {m k : Nat} {a c : ℤ} (posm : 0 < m) (posk : 0 < k)
    (same : (m : ℚ) * 2 ^ a = k * 2 ^ c) : totalExponent m a = totalExponent k c := by
  have common := mul_pow_eq_of_val_eq same (min_le_left a c) (min_le_right a c)
  have left := totalExponent_mul_pow posm (a - min a c).toNat (min a c)
  have right := totalExponent_mul_pow posk (c - min a c).toNat (min a c)
  rw [Int.toNat_of_nonneg (by omega), add_sub_cancel] at left right
  rw [← left, ← right, common]

/-- A natural number that a float can hold is converted to this float. -/
theorem ofNat_eq {n : Nat} (canonical : Format.single.Canonical b) (pos : 0 < n)
    (value : b.val = n) : UnpackedFloat.ofNat Format.binary32 n = unpacked false b := by
  have posb : 0 < b.mantissa := Binary.val_pos_iff.1 (value ▸ Nat.cast_pos.2 pos)
  have same : (n : ℚ) * 2 ^ (0 : ℤ) = b.mantissa * 2 ^ b.exponent := by
    rw [zpow_zero, mul_one, ← value, Binary.val]
  have target : Format.binary32.targetExponent (totalExponent n 0) = b.exponent := by
    rw [totalExponent_eq_of_val_eq pos posb same, targetExponent_eq canonical posb]
  have sign : compare (n : ℤ) 0 = .gt := compare_gt_iff_gt.2 (by omega)
  have start : (0 : ℤ) - (0 - b.exponent).toNat = min 0 b.exponent := by omega
  have shifted := mul_pow_eq_of_val_eq same (min_le_left 0 b.exponent) (min_le_right 0 b.exponent)
  rw [show (0 - min 0 b.exponent).toNat = (0 - b.exponent).toNat by omega] at shifted
  simp only [UnpackedFloat.ofNat, UnpackedFloat.ofInt, UnpackedFloat.normalize, sign,
    UnpackedFloat.round, target, decreaseExponent, Int.toNat_natCast, Nat.shiftLeft_eq, start,
    shifted]
  exact roundWithAccuracy_eq canonical posb (min_le_right _ _)

/-- A product has at most as many digits as its factors together. -/
theorem log2_mul_le (m n : Nat) : (m * n).log2 ≤ m.log2 + n.log2 + 1 := by
  rcases (m * n).eq_zero_or_pos with zero | pos
  · simp [zero]
  · refine Nat.le_of_lt_succ ((Nat.log2_lt pos.ne').2 ?_)
    calc m * n < 2 ^ (m.log2 + 1) * 2 ^ (n.log2 + 1) :=
          Nat.mul_lt_mul'' Nat.lt_log2_self Nat.lt_log2_self
      _ = 2 ^ (m.log2 + n.log2 + 1 + 1) := by ring

/-- A quotient that a float can hold is this float. -/
theorem div_eq {c d : Binary} (hd : Format.single.Canonical d)
    (posb : 0 < b.mantissa) (posc : 0 < c.mantissa) (value : d.val = b.val / c.val) :
    UnpackedFloat.div Format.binary32 (unpacked false b) (unpacked false c) = unpacked false d := by
  have posd : 0 < d.mantissa := by
    rw [← Binary.val_pos_iff, value]
    exact div_pos (Binary.val_pos_iff.2 posb) (Binary.val_pos_iff.2 posc)
  have same : (b.mantissa : ℚ) * 2 ^ (b.exponent - c.exponent) =
      (c.mantissa * d.mantissa : Nat) * 2 ^ d.exponent := by
    have : c.val ≠ 0 := (Binary.val_pos_iff.2 posc).ne'
    rw [eq_div_iff this] at value
    simp only [Binary.val] at value
    rw [zpow_sub₀ two_ne_zero, ← mul_div_assoc, ← value]
    push_cast
    field_simp
  obtain ⟨start, hstart⟩ : ∃ start, start = min (b.exponent - c.exponent)
    (Format.binary32.targetExponent
      (totalExponent b.mantissa b.exponent - totalExponent c.mantissa c.exponent)) := ⟨_, rfl⟩
  -- the first guess at the exponent never exceeds that of the quotient
  have below : start ≤ d.exponent := by
    have digits := totalExponent_eq_of_val_eq posb (Nat.mul_pos posc posd) same
    have product := log2_mul_le c.mantissa d.mantissa
    have target := targetExponent_eq hd posd
    simp only [Format.targetExponent, totalExponent] at hstart digits target
    omega
  have shifted := mul_pow_eq_of_val_eq same (hstart ▸ min_le_left _ _) below
  have quotient : divCore Format.binary32 b.mantissa b.exponent c.mantissa c.exponent =
      (d.mantissa * 2 ^ (d.exponent - start).toNat, start, .exact) := by
    simp only [divCore, ← hstart, Nat.shiftLeft_eq, shifted, mul_assoc,
      Nat.mul_div_cancel_left _ posc, Nat.mul_mod_right, accuracyOfFraction, if_true]
  simp only [unpacked_of_pos posb, unpacked_of_pos posc, UnpackedFloat.div, quotient]
  exact roundWithAccuracy_eq hd posd below

/-- A natural number that a float can hold is converted to this float. -/
theorem natCast_eq {n : Nat} (pos : 0 < n) (word : n < 2 ^ 64) (value : value? x = some (n : ℚ)) :
    n.toUInt64.toFloat32 = x := by
  obtain ⟨b, size, -, same⟩ := exists_size value (Nat.cast_pos.2 pos)
  have whole : n.toUInt64.toNat = n := by simpa using word
  change Float32.ofModel (.pack (UnpackedFloat.ofNat Format.binary32 n.toUInt64.toNat)) = x
  rw [whole, ofNat_eq (canonical_of_some size) pos same, ← eq_of_unpack (unpack_of_some size)]

/-- A quotient that a float can hold is this float. -/
theorem div_eq_of_value {z : Float32} (hx : value? x = some u) (hy : value? y = some v)
    (posu : 0 < u) (posv : 0 < v) (hz : value? z = some (u / v)) : x / y = z := by
  obtain ⟨b, sizex, posb, rfl⟩ := exists_size hx posu
  obtain ⟨c, sizey, posc, rfl⟩ := exists_size hy posv
  obtain ⟨d, sizez, -, same⟩ := exists_size hz (div_pos posu posv)
  change Float32.ofModel (.pack (UnpackedFloat.div Format.binary32 x.toModel.unpack
    y.toModel.unpack)) = z
  rw [unpack_of_some sizex, unpack_of_some sizey, div_eq (canonical_of_some sizez) posb posc same,
    ← eq_of_unpack (unpack_of_some sizez)]

end Float32

end Arbor
