import Arbor.Binary

/-!
# Decimals with a fixed number of places

The exact value of a number, rounded to a number of decimal places; a half goes to the even
neighbour. Whole numbers can be grouped by thousands.
-/

namespace Arbor.Decimal

def padZeros (width : Nat) (text : String) : String :=
  String.ofList (List.replicate (width - text.length) '0') ++ text

def padLeft (width : Nat) (text : String) : String :=
  String.ofList (List.replicate (width - text.length) ' ') ++ text

def padRight (width : Nat) (text : String) : String :=
  text ++ String.ofList (List.replicate (width - text.length) ' ')

def fixedRatio (places n d : Nat) : String :=
  let scaled := roundHalfEven (n * Nat.pow 10 places) d
  let whole := toString (scaled / Nat.pow 10 places)
  if places = 0 then whole
  else whole ++ "." ++ padZeros places (toString (scaled % Nat.pow 10 places))

def fixed (places : Nat) (x : Float) : String :=
  match Binary.ofFloat? x with
  | some (negative, b) =>
    (if negative then "-" else "") ++ fixedRatio places b.numerator b.denominator
  | none => if x.isNaN then "NaN" else if x < 0 then "-inf" else "inf"

/-- Commas between groups of three digits, which are given from the last to the first. -/
def groupDigits : List Char → List Char
  | a :: b :: c :: d :: rest => a :: b :: c :: ',' :: groupDigits (d :: rest)
  | digits => digits

def grouped (n : Nat) : String := String.ofList (groupDigits (toString n).toList.reverse).reverse

end Arbor.Decimal
