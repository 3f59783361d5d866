import Arbor.Error

/-!
# Reading JSON

A reader consumes a prefix of the input bytes and returns a value and the rest. Values are read in
place, in the shape the caller expects; there is no tree of generic values in between. Members that
nobody asks for are skipped: they have to be JSON, but their strings are not decoded.

## Main definitions

* `Reader`: a reader and the reasons for which it stops.
* `Reader.array`, `Reader.object`: the two composite values.
* `Reader.skip`: any value.
* `Reader.document`: a value with nothing but blanks after it.
-/

namespace Arbor.Json

inductive Problem where
  /-- It is not JSON of the expected shape. -/
  | malformed
  /-- A list of nodes in it is no tree. -/
  | refused (cause : Invalid)
deriving DecidableEq, Repr, Inhabited

/-- What a problem says about the entry of a cache. -/
def Problem.toCorruption : Problem → CorruptCause
  | malformed => .unreadable
  | refused cause => .tree cause

abbrev Reader := StateT (List UInt8) (Except Problem)

/-- The bytes with a meaning of their own. -/
def quoteByte : UInt8 := 0x22
def commaByte : UInt8 := 0x2c
def colonByte : UInt8 := 0x3a
def backslashByte : UInt8 := 0x5c
def openBracket : UInt8 := 0x5b
def closeBracket : UInt8 := 0x5d
def openBrace : UInt8 := 0x7b
def closeBrace : UInt8 := 0x7d

def isBlank (byte : UInt8) : Bool := byte == 0x20 || byte == 0x09 || byte == 0x0a || byte == 0x0d

def isDigit (byte : UInt8) : Bool := 0x30 ≤ byte && byte ≤ 0x39

def hexDigit? (byte : UInt8) : Option Nat :=
  if isDigit byte then some (byte - 0x30).toNat
  else if 0x41 ≤ byte && byte ≤ 0x46 then some (byte - 0x37).toNat
  else if 0x61 ≤ byte && byte ≤ 0x66 then some (byte - 0x57).toNat
  else none

namespace Reader

def malformed {α : Type} : Reader α := throw .malformed

def blanks : Reader Unit := modify (·.dropWhile isBlank)

/-- The next byte after blanks, without consuming it. -/
def peek : Reader (Option UInt8) := do
  blanks
  return (← get).head?

def advance : Reader Unit := modify List.tail

/-- Skips blanks and consumes the given byte. -/
def symbol (byte : UInt8) : Reader Unit := do
  if (← peek) = some byte then advance else malformed

def exactly (text : List UInt8) : Reader Unit := do
  if text.isPrefixOf (← get) then modify (·.drop text.length) else malformed

def arrayTail {α : Type} (item : Reader α) : (fuel : Nat) → (taken : Array α) → Reader (Array α)
  | 0, _ => malformed
  | fuel + 1, taken => do
    match ← peek with
    | some byte =>
      if byte = closeBracket then
        advance
        return taken
      else if byte = commaByte then
        advance
        arrayTail item fuel (taken.push (← item))
      else malformed
    | none => malformed

/-- A list of items in brackets. Every item takes at least one byte, so the length of the input
bounds their number. -/
def array {α : Type} (item : Reader α) : Reader (Array α) := do
  symbol openBracket
  if (← peek) = some closeBracket then
    advance
    return #[]
  let first ← item
  arrayTail item ((← get).length + 1) #[first]

def objectTail {σ : Type} (key : Reader String) (member : String → σ → Reader σ) :
    (fuel : Nat) → (state : σ) → Reader σ
  | 0, _ => malformed
  | fuel + 1, state => do
    match ← peek with
    | some byte =>
      if byte = closeBrace then
        advance
        return state
      else if byte = commaByte then
        advance
        let name ← key
        symbol colonByte
        objectTail key member fuel (← member name state)
      else malformed
    | none => malformed

/-- The members of an object, each handed to `member` with what was gathered before. -/
def object {σ : Type} (key : Reader String) (member : String → σ → Reader σ) (initial : σ) :
    Reader σ := do
  symbol openBrace
  if (← peek) = some closeBrace then
    advance
    return initial
  let name ← key
  symbol colonByte
  let state ← member name initial
  objectTail key member ((← get).length + 1) state

def null : Reader Unit := do
  blanks
  exactly [0x6e, 0x75, 0x6c, 0x6c]

def comma : Reader Unit := symbol commaByte

def skipString : (bytes : List UInt8) → Except Problem (Unit × List UInt8)
  | [] => .error .malformed
  | byte :: rest =>
    if byte = quoteByte then .ok ((), rest)
    else if byte = backslashByte then
      match rest with
      | [] => .error .malformed
      | kind :: rest =>
        if [0x22, 0x5c, 0x2f, 0x62, 0x66, 0x6e, 0x72, 0x74].contains kind then skipString rest
        else if kind = 0x75 then
          match rest with
          | a :: b :: c :: d :: rest =>
            if [a, b, c, d].all (hexDigit? · |>.isSome) then skipString rest
            else .error .malformed
          | _ => .error .malformed
        else .error .malformed
    else if byte < 0x20 then .error .malformed
    else skipString rest

def skipDigits : Reader Unit := do
  match (← get).head? with
  | some byte => if isDigit byte then modify (·.dropWhile isDigit) else malformed
  | none => malformed

def skipNumber : Reader Unit := do
  if (← get).head? = some 0x2d then advance
  if (← get).head? = some 0x30 then advance else skipDigits
  if (← get).head?.any isDigit then malformed
  if (← get).head? = some 0x2e then
    advance
    skipDigits
  if (← get).head? = some 0x65 || (← get).head? = some 0x45 then
    advance
    if (← get).head? = some 0x2b || (← get).head? = some 0x2d then advance
    skipDigits

mutual

def skipValue : (fuel : Nat) → Reader Unit
  | 0 => malformed
  | fuel + 1 => do
    match ← peek with
    | some 0x6e => exactly [0x6e, 0x75, 0x6c, 0x6c]
    | some 0x74 => exactly [0x74, 0x72, 0x75, 0x65]
    | some 0x66 => exactly [0x66, 0x61, 0x6c, 0x73, 0x65]
    | some 0x22 =>
      advance
      skipString
    | some 0x5b =>
      advance
      if (← peek) = some closeBracket then advance else skipItems fuel
    | some 0x7b =>
      advance
      if (← peek) = some closeBrace then advance else skipMembers fuel
    | _ => skipNumber

def skipItems : (fuel : Nat) → Reader Unit
  | 0 => malformed
  | fuel + 1 => do
    skipValue fuel
    match ← peek with
    | some 0x5d => advance
    | some 0x2c =>
      advance
      skipItems fuel
    | _ => malformed

def skipMembers : (fuel : Nat) → Reader Unit
  | 0 => malformed
  | fuel + 1 => do
    symbol quoteByte
    skipString
    symbol colonByte
    skipValue fuel
    match ← peek with
    | some 0x7d => advance
    | some 0x2c =>
      advance
      skipMembers fuel
    | _ => malformed

end

/-- Skips a value of any shape. Two levels of recursion belong to at least one byte. -/
def skip : Reader Unit := do
  skipValue (2 * (← get).length + 2)

def once {α : Type} (before : Option α) (reader : Reader α) : Reader (Option α) := do
  if before.isSome then malformed else return some (← reader)

def document {α : Type} (value : Reader α) (bytes : List UInt8) : Except Problem α := do
  let (a, rest) ← value.run bytes
  if rest.all isBlank then return a else throw .malformed

end Reader

end Arbor.Json
