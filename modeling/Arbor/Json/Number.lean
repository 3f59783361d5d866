import Arbor.Decimal.Shortest
import Arbor.Json.Reader
import Arbor.Word

/-!
# JSON numbers

Writing and reading of 32-bit floats and of natural numbers.

A float is written as its shortest decimal. A literal without fraction and exponent whose value fits
64 bits is an integer and is rounded to a float directly. Every other literal is taken as a 64-bit
significand and a power of ten: digits that no longer fit the significand are dropped, and the
significand and the power are rounded to 64-bit floats before they are multiplied or divided. The
result is then rounded to 32 bits.
-/

namespace Arbor.Json

/-- Which decimal exponents are written without an exponent. -/
def positional (exponent : Int) : Bool := -6 ≤ exponent && exponent ≤ 12

def decimalText (d : Decimal) : String :=
  let digits := toString d.significand
  let exponent := d.exponent + digits.length - 1
  let zeros (count : Nat) : String := String.ofList (List.replicate count '0')
  if positional exponent then
    if 0 ≤ d.exponent then digits ++ zeros d.exponent.toNat ++ ".0"
    else if exponent < 0 then "0." ++ zeros (-exponent - 1).toNat ++ digits
    else
      let whole := (exponent + 1).toNat
      String.ofList (digits.toList.take whole) ++ "." ++ String.ofList (digits.toList.drop whole)
  else
    let fraction := if digits.length = 1 then "" else "." ++ String.ofList (digits.toList.drop 1)
    let sign := if exponent < 0 then "e-" else "e+"
    String.ofList (digits.toList.take 1) ++ fraction ++ sign ++ toString exponent.natAbs

/-- A float as JSON. Infinities and NaN have no literal and are written as `null`. -/
def floatText (x : Float32) : String :=
  match Binary.ofFloat32? x with
  | none => "null"
  | some (negative, b) =>
    (if negative then "-" else "") ++ decimalText (Decimal.shortest .single b)

structure Literal where
  negative : Bool
  whole : List UInt8
  fraction : Option (List UInt8)
  exponent : Option (Bool × List UInt8)

/-- What a number literal stands for: an integer of 64 bits, or a 64-bit float. -/
inductive Number where
  | integer (n : Int)
  | real (negative : Bool) (size : Binary)

namespace Literal

/-- Digits of a significand while they fit, the digits behind that, and how many were taken. -/
def absorb : (digits : List UInt8) → (significand taken : Nat) → Nat × Nat × List UInt8
  | [], significand, taken => (significand, taken, [])
  | digit :: rest, significand, taken =>
    let next := significand * 10 + (digit - 0x30).toNat
    if next < Word.limit then absorb rest next (taken + 1)
    else (significand, taken, digit :: rest)

def valueOf (digits : List UInt8) : Nat :=
  digits.foldl (fun n digit => n * 10 + (digit - 0x30).toNat) 0

def power (exponent : Nat) : Binary := Format.double.round (Nat.pow 10 exponent) 1

def greatestPower : Nat := 308

def times (a b : Binary) : Binary :=
  Format.double.round (a.numerator * b.numerator) (a.denominator * b.denominator)

def dividedBy (a b : Binary) : Binary :=
  Format.double.round (a.numerator * b.denominator) (a.denominator * b.numerator)

/-- `size / 10 ^ exponent`, in several divisions if the power is too large for one. -/
def scaleDown (size : Binary) (exponent : Nat) : Binary :=
  if exponent ≤ greatestPower then dividedBy size (power exponent)
  else if size.mantissa = 0 then size
  else scaleDown (dividedBy size (power greatestPower)) (exponent - greatestPower)
termination_by exponent
decreasing_by simp only [greatestPower] at *; omega

/-- `significand * 10 ^ exponent` as a 64-bit float, if it is finite. -/
def scale (significand : Nat) (exponent : Int) : Option Binary :=
  let size := Format.double.round significand 1
  if exponent < 0 then some (scaleDown size exponent.natAbs)
  else if exponent.toNat ≤ greatestPower then
    let product := times size (power exponent.toNat)
    if Format.double.fits product then some product else none
  else if size.mantissa = 0 then some size
  else none

/-- The value of an integer that fits a word, with or without a sign. -/
def integer (negative : Bool) (n : Nat) : Number :=
  if negative then
    if n = 0 ∨ 0x8000000000000000 < n then .real true (Format.double.round n 1) else .integer (-n)
  else .integer n

def value (literal : Literal) : Option Number :=
  let (significand, _, dropped) := absorb literal.whole 0 0
  match literal.fraction, literal.exponent, dropped with
  | none, none, [] => some (integer literal.negative significand)
  | _, _, _ =>
    let (significand, places, _) := absorb (literal.fraction.getD []) significand 0
    let shift : Int := match literal.exponent with
      | none => 0
      | some (down, digits) => if down then -(valueOf digits : Int) else valueOf digits
    (scale significand ((dropped.length : Int) - places + shift)).map (.real literal.negative)

end Literal

namespace Number

def toFloat32 : Number → Float32
  | integer n => Binary.toFloat32 (n < 0) ⟨n.natAbs, 0⟩
  | real negative size => size.toFloat32 negative

def toNat? (bound : Nat) : Number → Option Nat
  | integer (.ofNat n) => if n < bound then some n else none
  | _ => none

end Number

namespace Reader

def digits : Reader (List UInt8) := do
  let bytes ← get
  match bytes.takeWhile isDigit with
  | [] => malformed
  | taken =>
    set (bytes.dropWhile isDigit)
    return taken

def optionally (bytes : List UInt8) : Reader (Option UInt8) := do
  match (← get).head? with
  | some byte =>
    if bytes.contains byte then
      advance
      return some byte
    else return none
  | none => return none

def fraction : Reader (Option (List UInt8)) := do
  match ← optionally [0x2e] with
  | none => return none
  | some _ => return some (← digits)

def exponent : Reader (Option (Bool × List UInt8)) := do
  match ← optionally [0x65, 0x45] with
  | none => return none
  | some _ =>
    let down := (← optionally [0x2b, 0x2d]) == some 0x2d
    return some (down, ← digits)

/-- A number literal. A leading zero has no digit after it. -/
def literal : Reader Literal := do
  blanks
  let negative := (← optionally [0x2d]).isSome
  let whole ← digits
  if whole.head? = some 0x30 ∧ whole.length ≠ 1 then malformed
  return ⟨negative, whole, ← fraction, ← exponent⟩

def number : Reader Number := do
  match (← literal).value with
  | none => malformed
  | some n => return n

def float32 : Reader Float32 := do
  return (← number).toFloat32

def natural (bound : Nat) : Reader Nat := do
  match (← number).toNat? bound with
  | none => malformed
  | some n => return n

end Reader

end Arbor.Json
