import Arbor.Binary

/-!
# Shortest decimals

Every number of a floating-point format is the nearest one to a whole interval of numbers. Among the
decimals of that interval `Decimal.shortest` picks one with the fewest digits, and of these the
nearest to the number, so that reading the decimal gives the number back.
-/

namespace Arbor

/-- The number `significand * 10 ^ exponent`. -/
structure Decimal where
  significand : Nat
  exponent : Int
deriving DecidableEq, Repr, Inhabited

namespace Decimal

/-- How many decimal digits a number has; none for zero. -/
def length (n : Nat) : Nat := if n = 0 then 0 else length (n / 10) + 1

def floorLog10 (n d : Nat) : Int :=
  if d ≤ n then (length (n / d) : Int) - 1 else -(length ((d - 1) / n) : Int)

/-- A number with the interval of reals that are rounded to it. All are multiples of
`2 ^ exponent`. -/
structure Rounding where
  lower : Nat
  value : Nat
  upper : Nat
  exponent : Int
  /-- Whether the ends belong to the interval. -/
  closed : Bool

/-- What is rounded to `b`. Half the distance to both neighbours; the lower neighbour of a power of
two is only half as far. The ends belong to even mantissas. -/
def Rounding.of (format : Format) (b : Binary) : Rounding :=
  let narrow := b.mantissa = Nat.pow 2 format.fractionBits ∧ format.least < b.exponent
  ⟨4 * b.mantissa - (if narrow then 1 else 2), 4 * b.mantissa, 4 * b.mantissa + 2, b.exponent - 2,
    b.mantissa % 2 = 0⟩

namespace Rounding

variable (r : Rounding)

/-- What a multiple of `10 ^ power` is multiplied with to compare it with the interval. -/
def decimalUnit (power : Int) : Nat := Nat.pow 10 power.toNat * Nat.pow 2 (-r.exponent).toNat

/-- What the interval is multiplied with to compare it with a multiple of `10 ^ power`. -/
def binaryUnit (power : Int) : Nat := Nat.pow 2 r.exponent.toNat * Nat.pow 10 (-power).toNat

def contains (power : Int) (significand : Nat) : Bool :=
  let point := significand * r.decimalUnit power
  let low := r.lower * r.binaryUnit power
  let high := r.upper * r.binaryUnit power
  if r.closed then low ≤ point && point ≤ high else low < point && point < high

def below (power : Int) : Nat := r.value * r.binaryUnit power / r.decimalUnit power

/-- The multiple of `10 ^ power` that is nearest to the number, and the even one in the middle. -/
def nearest (power : Int) : Nat :=
  roundHalfEven (r.value * r.binaryUnit power) (r.decimalUnit power)

def pick (power : Int) : Option Nat :=
  let low := r.below power
  match r.contains power low, r.contains power (low + 1) with
  | true, true => some (r.nearest power)
  | true, false => some low
  | false, true => some (low + 1)
  | false, false => none

/-- Tries ever finer grids, from the multiples of `10 ^ power` on. -/
def search : (attempts : Nat) → (power : Int) → Decimal
  | 0, power => ⟨r.nearest power, power⟩
  | attempts + 1, power =>
    match r.pick power with
    | some significand => ⟨significand, power⟩
    | none => search attempts (power - 1)

end Rounding

/-- Moves the zeros at the end of the significand into the exponent. -/
def trim (d : Decimal) : Decimal :=
  if d.significand = 0 then ⟨0, 0⟩
  else if d.significand % 10 = 0 then trim ⟨d.significand / 10, d.exponent + 1⟩
  else d
termination_by d.significand
decreasing_by omega

def enoughDigits : Nat := 17

/-- The shortest decimal that is rounded to `b`, of these the nearest. -/
def shortest (format : Format) (b : Binary) : Decimal :=
  if b.mantissa = 0 then ⟨0, 0⟩
  else
    let r := Rounding.of format b
    (r.search enoughDigits (floorLog10 b.numerator b.denominator)).trim

end Decimal

end Arbor
