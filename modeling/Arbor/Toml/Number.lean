import Arbor.Binary
import Arbor.Toml.Table
import Arbor.Toml.Text

/-!
# TOML numbers, dates and times

Integers have 64 bits with a sign. Underscores may stand between digits. A number with a fraction or
an exponent must not exceed the range of 64-bit floats upwards. Dates have to exist.
-/

namespace Arbor.Toml

/-- Digits, and single underscores between a digit and a digit. -/
def digitRun (isDigit : Char → Bool) : List Char → List Char × List Char
  | '_' :: c :: rest =>
    if isDigit c then ((digitRun isDigit rest).map (c :: ·) id) else ([], '_' :: c :: rest)
  | c :: rest => if isDigit c then ((digitRun isDigit rest).map (c :: ·) id) else ([], c :: rest)
  | [] => ([], [])

def digits? (isDigit : Char → Bool) (input : List Char) : Option (List Char × List Char) :=
  if input.head?.any isDigit then some (digitRun isDigit input) else none

def valueOf (base : Nat) (digits : List Char) : Nat :=
  digits.foldl (fun n c => n * base + (hexDigit? c).getD 0) 0

/-- An optional sign: whether it is a minus. -/
def sign : List Char → Bool × List Char
  | '-' :: rest => (true, rest)
  | '+' :: rest => (false, rest)
  | input => (false, input)

/-- Decimal digits without a leading zero. -/
def whole? : List Char → Option (List Char × List Char)
  | '0' :: rest => some (['0'], rest)
  | input => digits? Char.isDigit input

def bounded? (n : Int) : Option Value :=
  if -0x8000000000000000 ≤ n ∧ n < 0x8000000000000000 then some (.integer n) else none

def based? (base : Nat) (isDigit : Char → Bool) (input : List Char) :
    Option (Value × List Char) := do
  let (digits, rest) ← digits? isDigit input
  let value ← bounded? (valueOf base digits)
  return (value, rest)

def decimal? (input : List Char) : Option (Value × List Char) := do
  let (negative, rest) := sign input
  let (digits, rest) ← whole? rest
  let n : Int := valueOf 10 digits
  let value ← bounded? (if negative then -n else n)
  return (value, rest)

def integer? : List Char → Option (Value × List Char)
  | '0' :: 'x' :: rest => based? 16 (fun c => (hexDigit? c).isSome) rest
  | '0' :: 'o' :: rest => based? 8 (fun c => '0' ≤ c && c ≤ '7') rest
  | '0' :: 'b' :: rest => based? 2 (fun c => c == '0' || c == '1') rest
  | input => decimal? input

/-- Whether `significand * 10 ^ exponent` is finite as a 64-bit float. -/
def isFinite (significand : Nat) (exponent : Int) : Bool :=
  let magnitude := (toString significand).length + exponent
  if significand = 0 ∨ magnitude < 300 then true
  else if 310 < magnitude then false
  else Format.double.fits
    (Format.double.round (significand * Nat.pow 10 exponent.toNat) (Nat.pow 10 (-exponent).toNat))

def fraction? : List Char → Option (List Char × List Char)
  | '.' :: rest => digits? Char.isDigit rest
  | _ => none

def exponent? : List Char → Option (Int × List Char)
  | [] => none
  | c :: rest =>
    if c == 'e' || c == 'E' then do
      let (negative, rest) := sign rest
      let (digits, rest) ← digits? Char.isDigit rest
      let n : Int := valueOf 10 digits
      return (if negative then -n else n, rest)
    else none

def real? (input : List Char) : Option (Value × List Char) := do
  let (negative, rest) := sign input
  let (whole, rest) ← whole? rest
  let (places, shift, rest) ← match fraction? rest with
    | some (places, rest) =>
      match exponent? rest with
      | some (shift, rest) => some (places, shift, rest)
      | none => some (places, 0, rest)
    | none => (exponent? rest).map fun (shift, rest) => ([], shift, rest)
  if negative || isFinite (valueOf 10 (whole ++ places)) (shift - places.length) then
    return (.real, rest)
  else none

def special? (input : List Char) : Option (Value × List Char) :=
  let (_, rest) := sign input
  if rest.take 3 = ['i', 'n', 'f'] ∨ rest.take 3 = ['n', 'a', 'n'] then some (.real, rest.drop 3)
  else none

/-- A number of exactly `count` digits between two bounds. -/
def field? (count least greatest : Nat) (input : List Char) : Option (Nat × List Char) :=
  let digits := input.take count
  let n := valueOf 10 digits
  if digits.length = count ∧ digits.all Char.isDigit ∧ least ≤ n ∧ n ≤ greatest then
    some (n, input.drop count)
  else none

def after? (c : Char) : List Char → Option (List Char)
  | head :: rest => if head = c then some rest else none
  | [] => none

def daysOf (year month : Nat) : Nat :=
  if month = 2 then
    if year % 4 = 0 ∧ (year % 100 ≠ 0 ∨ year % 400 = 0) then 29 else 28
  else if month = 4 ∨ month = 6 ∨ month = 9 ∨ month = 11 then 30
  else 31

/-- What follows a date. -/
def date? (input : List Char) : Option (List Char) := do
  let (year, rest) ← field? 4 0 9999 input
  let (month, rest) ← field? 2 1 12 (← after? '-' rest)
  let (_, rest) ← field? 2 1 (daysOf year month) (← after? '-' rest)
  return rest

/-- What follows a time of day. The last minute of a day may have a leap second. -/
def time? (input : List Char) : Option (List Char) := do
  let (_, rest) ← field? 2 0 23 input
  let (_, rest) ← field? 2 0 59 (← after? ':' rest)
  let (_, rest) ← field? 2 0 60 (← after? ':' rest)
  match rest with
  | '.' :: c :: more => return if c.isDigit then more.dropWhile Char.isDigit else rest
  | _ => return rest

def offset? : List Char → Option (List Char)
  | [] => none
  | c :: rest =>
    if c == 'Z' || c == 'z' then some rest
    else if c == '+' || c == '-' then do
      let (_, rest) ← field? 2 0 23 rest
      let (_, rest) ← field? 2 0 59 (← after? ':' rest)
      return rest
    else none

def timeOfDate (input : List Char) : List Char :=
  match input with
  | [] => []
  | c :: rest =>
    if c == 'T' || c == 't' || c == ' ' then
      match time? rest with
      | none => input
      | some rest => (offset? rest).getD rest
    else input

/-- A date, a time, or both with or without an offset. -/
def moment? (input : List Char) : Option (Value × List Char) :=
  match date? input with
  | some rest => some (.moment, timeOfDate rest)
  | none => (time? input).map (.moment, ·)

def numeric? (input : List Char) : Option (Value × List Char) :=
  moment? input <|> real? input <|> special? input <|> integer? input

end Arbor.Toml
