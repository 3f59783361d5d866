/-!
# Pseudo-random blocks

The ChaCha stream cipher with eight rounds, used as a generator of 32-bit words. A state is a matrix
of four rows of four words: constants, two rows of key, and a row with the 64-bit block counter and
the stream number. A round mixes the columns; every second round mixes the diagonals, which are the
columns after row `i` is turned by `i` places.
-/

namespace Arbor.Random

structure Row where
  first : UInt32
  second : UInt32
  third : UInt32
  fourth : UInt32
deriving DecidableEq, Repr, Inhabited

namespace Row

@[inline] def zip (f : UInt32 → UInt32 → UInt32) (a b : Row) : Row :=
  ⟨f a.first b.first, f a.second b.second, f a.third b.third, f a.fourth b.fourth⟩

@[inline] def rotate (row : Row) (amount : UInt32) : Row :=
  let rotateWord (word : UInt32) := (word <<< amount) ||| (word >>> (32 - amount))
  ⟨rotateWord row.first, rotateWord row.second, rotateWord row.third, rotateWord row.fourth⟩

/-- Moves every word one place to the left; the first becomes the last. -/
@[inline] def turn (row : Row) : Row := ⟨row.second, row.third, row.fourth, row.first⟩

def words (row : Row) : List UInt32 := [row.first, row.second, row.third, row.fourth]

end Row

/-- A cipher state, or the block of output made from one. -/
structure Block where
  top : Row
  upper : Row
  lower : Row
  bottom : Row
deriving DecidableEq, Repr, Inhabited

namespace Block

def mixColumns (block : Block) : Block :=
  let a := block.top.zip (· + ·) block.upper
  let d := (block.bottom.zip (· ^^^ ·) a).rotate 16
  let c := block.lower.zip (· + ·) d
  let b := (block.upper.zip (· ^^^ ·) c).rotate 12
  let a := a.zip (· + ·) b
  let d := (d.zip (· ^^^ ·) a).rotate 8
  let c := c.zip (· + ·) d
  let b := (b.zip (· ^^^ ·) c).rotate 7
  ⟨a, b, c, d⟩

/-- Turns row `i` by `i` places, so that diagonals become columns. -/
def diagonals (block : Block) : Block :=
  ⟨block.top, block.upper.turn, block.lower.turn.turn, block.bottom.turn.turn.turn⟩

def columns (block : Block) : Block :=
  ⟨block.top, block.upper.turn.turn.turn, block.lower.turn.turn, block.bottom.turn⟩

def doubleRound (block : Block) : Block := block.mixColumns.diagonals.mixColumns.columns

def add (a b : Block) : Block :=
  ⟨a.top.zip (· + ·) b.top, a.upper.zip (· + ·) b.upper,
    a.lower.zip (· + ·) b.lower, a.bottom.zip (· + ·) b.bottom⟩

def constants : Row := ⟨0x61707865, 0x3320646e, 0x79622d32, 0x6b206574⟩

/-- The state of block `counter` in stream 0. -/
def start (upperKey lowerKey : Row) (counter : UInt64) : Block :=
  ⟨constants, upperKey, lowerKey, ⟨counter.toUInt32, (counter >>> 32).toUInt32, 0, 0⟩⟩

/-- Block `counter` of the output: four double rounds of the start state, added to it. -/
def generate (upperKey lowerKey : Row) (counter : UInt64) : Block :=
  let state := start upperKey lowerKey counter
  state.doubleRound.doubleRound.doubleRound.doubleRound.add state

def words (block : Block) : List UInt32 :=
  block.top.words ++ block.upper.words ++ block.lower.words ++ block.bottom.words

end Block

end Arbor.Random
