import Mathlib
import Arbor.Proofs.Rounding

/-!
# 32-bit floats as numbers

Comparisons do not tell floats apart that are equal as numbers, and a number that rounds to the size
of a float is read as this float.

## Main statements

* `lt_congr_of_beq`: equal floats compare alike with every other float.
* `unpack_of_some`, `unpack_of_none`: floating-point arithmetic reads the sign and the size of a
  float, if it is finite.
* `isFinite_iff`: the finite floats are those with a size.
* `toFloat32_of_bits`: reading a number of a float's size.
-/

namespace Arbor.Float32

open Float.Model Float.Model.UnpackedFloat

/-! ## Comparisons -/

theorem compare_zero_left (s t : Sign) (c : UnpackedFloat) :
    UnpackedFloat.compare (.zero s) c = UnpackedFloat.compare (.zero t) c := by
  cases c with
  | infinity u | finite u => cases u <;> rfl
  | _ => rfl

theorem compare_zero_right (s t : Sign) (c : UnpackedFloat) :
    c.compare (.zero s) = c.compare (.zero t) := by
  cases c with
  | infinity u | finite u => cases u <;> rfl
  | _ => rfl

theorem unpack_congr_of_beq {a b : Float32} (h : (a == b) = true) (c : UnpackedFloat) :
    a.toModel.unpack.compare c = b.toModel.unpack.compare c ∧
      c.compare a.toModel.unpack = c.compare b.toModel.unpack := by
  obtain ⟨-, -, rfl | ⟨rfl, rfl⟩ | ⟨rfl, rfl⟩⟩ := Float32.beq_iff_ne_nan_and_eq.1 h
  · exact ⟨rfl, rfl⟩
  · exact ⟨compare_zero_left .positive .negative c, compare_zero_right .positive .negative c⟩
  · exact ⟨compare_zero_left .negative .positive c, compare_zero_right .negative .positive c⟩

theorem lt_iff (a b : Float32) :
    a < b ↔ (a.toModel.unpack.compare b.toModel.unpack == some .lt) = true := by
  change a.lt b = true ↔ _
  rw [Float32.lt, decide_eq_true_eq]
  rfl

theorem lt_congr_of_beq {a b : Float32} (h : (a == b) = true) (c : Float32) :
    (a < c ↔ b < c) ∧ (c < a ↔ c < b) := by
  obtain ⟨left, right⟩ := unpack_congr_of_beq h c.toModel.unpack
  simp only [lt_iff, left, right, and_self]

theorem isFinite_congr_of_beq {a b : Float32} (h : (a == b) = true) : a.isFinite = b.isFinite := by
  obtain ⟨-, -, rfl | ⟨rfl, rfl⟩ | ⟨rfl, rfl⟩⟩ := Float32.beq_iff_ne_nan_and_eq.1 h
  · rfl
  · decide
  · decide

/-- A finite float is equal to itself. -/
theorem beq_self_of_isFinite {a : Float32} (h : a.isFinite = true) : (a == a) = true := by
  have number : a ≠ Float32.nan := by
    rintro rfl
    exact absurd h (by decide)
  exact Float32.beq_iff_ne_nan_and_eq.2 ⟨number, number, .inl rfl⟩

/-! ## Sign and size -/

def signOf (negative : Bool) : Sign := if negative then .negative else .positive

def unpacked (negative : Bool) (b : Binary) : UnpackedFloat :=
  if h : b.mantissa = 0 then .zero (signOf negative)
  else .finite (signOf negative) b.mantissa b.exponent (Nat.pos_of_ne_zero h)

variable {x : Float32} {negative : Bool} {b : Binary}

theorem toNat_unpackExponent (p : BitVec Format.binary32.numBits) :
    (unpackExponent p).toNat = p.toNat / 2 ^ 23 % 2 ^ 8 := by
  simp [unpackExponent, BitVec.extractLsb_toNat, Nat.shiftRight_eq_div_pow]

theorem toNat_unpackMantissa (p : BitVec Format.binary32.numBits) :
    (unpackMantissa p).toNat = p.toNat % 2 ^ 23 := by
  simp [unpackMantissa, BitVec.extractLsb_toNat]

theorem ofBitVec_unpackSign (p : BitVec Format.binary32.numBits) :
    Sign.ofBitVec (unpackSign p) = signOf (0x80000000 ≤ p.toNat : Bool) := by
  have bound : p.toNat < 2 ^ 32 := p.isLt
  have bit : (unpackSign p).toNat = p.toNat / 2 ^ 31 % 2 := by
    simp [unpackSign, BitVec.extractLsb_toNat, Nat.shiftRight_eq_div_pow]
  have zero : unpackSign p = 0#1 ↔ ¬ 0x80000000 ≤ p.toNat := by
    rw [← BitVec.toNat_inj, bit, BitVec.toNat_ofNat]
    omega
  simp only [Sign.ofBitVec, signOf, zero, decide_eq_true_eq, ite_not]

theorem toNat_append {m n : Nat} (u : BitVec m) (v : BitVec n) :
    (u ++ v).toNat = u.toNat * 2 ^ n + v.toNat := by
  rw [BitVec.toNat_append, ← Nat.shiftLeft_add_eq_or_of_lt v.isLt, Nat.shiftLeft_eq]

/-- Unpacking, in terms of the number that the bits are. -/
theorem unpack_eq (x : Float32) :
    x.toModel.unpack =
      if x.toBits.toNat / 2 ^ 23 % 2 ^ 8 = 255 then
        if x.toBits.toNat % 2 ^ 23 = 0 then .infinity (signOf (0x80000000 ≤ x.toBits.toNat : Bool))
        else .notANumber
      else if x.toBits.toNat / 2 ^ 23 % 2 ^ 8 = 0 then
        unpacked (0x80000000 ≤ x.toBits.toNat : Bool) ⟨x.toBits.toNat % 2 ^ 23, -149⟩
      else unpacked (0x80000000 ≤ x.toBits.toNat : Bool)
        ⟨2 ^ 23 + x.toBits.toNat % 2 ^ 23, (x.toBits.toNat / 2 ^ 23 % 2 ^ 8 : Nat) - 150⟩ := by
  rw [← UInt32.toNat_toBitVec]
  change UnpackedFloat.unpack Format.binary32 x.toBits.toBitVec = _
  generalize (x.toBits.toBitVec : BitVec Format.binary32.numBits) = p
  have field := toNat_unpackExponent p
  have fraction := toNat_unpackMantissa p
  have top : @unpackExponent Format.binary32 p = -1#8 ↔ p.toNat / 2 ^ 23 % 2 ^ 8 = 255 := by
    rw [← field, ← BitVec.toNat_inj]
    rfl
  have bottom : @unpackExponent Format.binary32 p = 0#8 ↔ p.toNat / 2 ^ 23 % 2 ^ 8 = 0 := by
    rw [← field, ← BitVec.toNat_inj]
    rfl
  have whole : @unpackMantissa Format.binary32 p = 0#23 ↔ p.toNat % 2 ^ 23 = 0 := by
    rw [← fraction, ← BitVec.toNat_inj]
    rfl
  have bias : Format.binary32.exponentBias = 127 := rfl
  simp only [UnpackedFloat.unpack, unpacked, top, bottom, whole, field, fraction, bias,
    ofBitVec_unpackSign, toNat_append]
  split_ifs
  · rfl
  · rfl
  · rfl
  · congr 1
    omega
  · omega
  · congr 1

/-- Sign and size, in terms of the number that the bits are. -/
theorem ofFloat32?_eq (x : Float32) :
    Binary.ofFloat32? x =
      if x.toBits.toNat / 2 ^ 23 % 2 ^ 8 = 255 then none
      else if x.toBits.toNat / 2 ^ 23 % 2 ^ 8 = 0 then
        some ((0x80000000 ≤ x.toBits.toNat : Bool), ⟨x.toBits.toNat % 2 ^ 23, -149⟩)
      else some ((0x80000000 ≤ x.toBits.toNat : Bool),
        ⟨2 ^ 23 + x.toBits.toNat % 2 ^ 23, (x.toBits.toNat / 2 ^ 23 % 2 ^ 8 : Nat) - 150⟩) := by
  have top : Format.single.infinity = 255 * 2 ^ 23 := by decide
  have bits : Nat.pow 2 Format.single.fractionBits = 2 ^ 23 := by decide
  have least : Format.single.least = -149 := rfl
  have field : x.toBits.toNat % 0x80000000 / 2 ^ 23 = x.toBits.toNat / 2 ^ 23 % 2 ^ 8 := by omega
  have rest : x.toBits.toNat % 0x80000000 % 2 ^ 23 = x.toBits.toNat % 2 ^ 23 := by omega
  have infinite : 255 * 2 ^ 23 ≤ x.toBits.toNat % 0x80000000 ↔
      x.toBits.toNat / 2 ^ 23 % 2 ^ 8 = 255 := by omega
  simp only [Binary.ofFloat32?, Format.decode, top, bits, least, field, rest, infinite]
  split_ifs
  · rfl
  · rfl
  · simp only [Option.map_some]
    congr 3
    omega

/-- Finite floats are unpacked to their sign and size. -/
theorem unpack_of_some (size : Binary.ofFloat32? x = some (negative, b)) :
    x.toModel.unpack = unpacked negative b := by
  rw [ofFloat32?_eq] at size
  rw [unpack_eq]
  split_ifs at size ⊢
  all_goals
    obtain ⟨rfl, rfl⟩ := Prod.mk.inj (Option.some.inj size)
    rfl

/-- The other floats are infinite or not a number. -/
theorem unpack_of_none (size : Binary.ofFloat32? x = none) :
    x.toModel.unpack = .notANumber ∨ ∃ sign, x.toModel.unpack = .infinity sign := by
  rw [ofFloat32?_eq] at size
  rw [unpack_eq]
  split_ifs at size ⊢
  · exact .inr ⟨_, rfl⟩
  · exact .inl rfl

theorem isFinite_iff (x : Float32) : x.isFinite = true ↔ (Binary.ofFloat32? x).isSome = true := by
  change x.toModel.unpack.isFinite = true ↔ _
  rcases size : Binary.ofFloat32? x with _ | ⟨negative, b⟩
  · rcases unpack_of_none size with nan | ⟨sign, infinite⟩
    · simp [nan, UnpackedFloat.isFinite]
    · simp [infinite, UnpackedFloat.isFinite]
  · rw [unpack_of_some size, unpacked]
    split_ifs <;> simp [UnpackedFloat.isFinite]

theorem canonical_of_some (size : Binary.ofFloat32? x = some (negative, b)) :
    Format.single.Canonical b := by
  simp only [Binary.ofFloat32?, Option.map_eq_some_iff, Prod.mk.injEq] at size
  obtain ⟨_, decoded, -, rfl⟩ := size
  exact (Format.canonical_of_decode (by decide) decoded).1

/-- A number that rounds to the size of a float is read as this float. -/
theorem toFloat32_of_bits {c : Binary} (float : Binary.ofFloat32? x = some (negative, b))
    (same : Format.single.bits (Format.single.round c.numerator c.denominator) =
      Format.single.bits b) :
    c.toFloat32 negative = x := by
  simp only [Binary.ofFloat32?, Option.map_eq_some_iff, Prod.mk.injEq] at float
  obtain ⟨_, decoded, sign, rfl⟩ := float
  obtain ⟨-, -, pattern⟩ := Format.canonical_of_decode (by decide) decoded
  have bound := x.toBits.toNat_lt
  have bits : (if negative then 0x80000000 + x.toBits.toNat % 0x80000000
      else x.toBits.toNat % 0x80000000) = x.toBits.toNat := by
    cases negative <;> simp at sign ⊢ <;> omega
  rw [Binary.toFloat32, same, pattern, bits, Nat.toUInt32_eq, UInt32.ofNat_toNat,
    Float32.ofBits_toBits]

end Arbor.Float32
