/-!
# Binary numbers and rounding

Non-negative numbers `m * 2 ^ e`, and the rounding of fractions to the numbers of a floating-point
format. Rounding is exact arithmetic on natural numbers: to the nearest number of the format, and of
two equally near ones to the one with an even mantissa.

## Main definitions

* `Binary`: a mantissa and an exponent.
* `Format`: precision and range of exponents, with `Format.single` and `Format.double`.
* `Format.round`: rounds a fraction.
* `Format.bits`: the bit pattern of a rounded number.
* `Format.decode`: the number with a bit pattern.
-/

namespace Arbor

/-- The quotient `n / d`, rounded to the nearest integer, and to the even one in the middle. -/
def roundHalfEven (n d : Nat) : Nat :=
  let quotient := n / d
  let twice := 2 * (n % d)
  if twice < d then quotient
  else if d < twice then quotient + 1
  else quotient + quotient % 2

/-- The number `mantissa * 2 ^ exponent`. -/
structure Binary where
  mantissa : Nat
  exponent : Int
deriving DecidableEq, Repr, Inhabited

namespace Binary

def numerator (b : Binary) : Nat := b.mantissa * Nat.pow 2 b.exponent.toNat

def denominator (b : Binary) : Nat := Nat.pow 2 (-b.exponent).toNat

def floorLog2 (n d : Nat) : Int :=
  let guess := (n.log2 : Int) - d.log2
  if n * Nat.pow 2 (-guess).toNat < d * Nat.pow 2 guess.toNat then guess - 1 else guess

end Binary

/-- A floating-point format: the numbers `m * 2 ^ e` with `m < 2 ^ precision` and
`least ≤ e ≤ greatest`. -/
structure Format where
  precision : Nat
  least : Int
  greatest : Int
deriving DecidableEq, Repr, Inhabited

namespace Format

def single : Format := ⟨24, -149, 104⟩

def double : Format := ⟨53, -1074, 971⟩

variable (format : Format)

def exponentOf (n d : Nat) : Int :=
  if n = 0 then format.least
  else max format.least (Binary.floorLog2 n d + 1 - format.precision)

/-- The number of the format that is nearest to `n / d`, if exponents were not bounded above. -/
def round (n d : Nat) : Binary :=
  let exponent := format.exponentOf n d
  ⟨roundHalfEven (n * Nat.pow 2 (-exponent).toNat) (d * Nat.pow 2 exponent.toNat), exponent⟩

def fits (b : Binary) : Bool :=
  b.numerator < Nat.pow 2 (format.precision + format.greatest).toNat * b.denominator

def fractionBits : Nat := format.precision - 1

def infinity : Nat :=
  (format.greatest - format.least + 2).toNat * Nat.pow 2 format.fractionBits

/-- The bit pattern of a rounded number. The leading bit of a normal mantissa adds one to the
exponent field, so one formula serves normal and subnormal numbers. -/
def bits (b : Binary) : Nat :=
  min format.infinity
    ((b.exponent - format.least).toNat * Nat.pow 2 format.fractionBits + b.mantissa)

/-- The number with a bit pattern without sign, if it is finite. -/
def decode (pattern : Nat) : Option Binary :=
  let fraction := pattern % Nat.pow 2 format.fractionBits
  let field := pattern / Nat.pow 2 format.fractionBits
  if format.infinity ≤ pattern then none
  else if field = 0 then some ⟨fraction, format.least⟩
  else some ⟨Nat.pow 2 format.fractionBits + fraction, format.least + field - 1⟩

end Format

def Binary.ofFloat32? (x : Float32) : Option (Bool × Binary) :=
  let pattern := x.toBits.toNat
  (Format.single.decode (pattern % 0x80000000)).map ((0x80000000 ≤ pattern : Bool), ·)

def Binary.ofFloat? (x : Float) : Option (Bool × Binary) :=
  let pattern := x.toBits.toNat
  (Format.double.decode (pattern % 0x8000000000000000)).map
    ((0x8000000000000000 ≤ pattern : Bool), ·)

def Binary.toFloat32 (negative : Bool) (b : Binary) : Float32 :=
  let pattern := Format.single.bits (Format.single.round b.numerator b.denominator)
  Float32.ofBits (if negative then 0x80000000 + pattern else pattern).toUInt32

def Binary.toFloat (negative : Bool) (b : Binary) : Float :=
  let pattern := Format.double.bits (Format.double.round b.numerator b.denominator)
  Float.ofBits (if negative then 0x8000000000000000 + pattern else pattern).toUInt64

end Arbor
