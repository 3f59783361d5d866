import Arbor.Random.Block

/-!
# Seeded draws

A source hands out the words of successive cipher blocks in order. Its key is expanded from a 64-bit
seed by a permuted congruential generator. Draws are state transformers on sources, so equal sources
give equal draws.

## Main definitions

* `Source.ofSeed`: the source of a seed.
* `Draw.word`, `Draw.double`: the next 32 or 64 bits.
* `Draw.unit`: a float in `[0, 1)`.
* `Draw.coin`: a fair truth value.
* `Draw.below`: a number below a bound.
-/

namespace Arbor.Random

/-- The words not yet handed out: the rest of the current block, then the blocks from `counter`. -/
structure Source where
  upperKey : Row
  lowerKey : Row
  counter : UInt64
  pending : List UInt32
deriving DecidableEq, Repr, Inhabited

abbrev Draw := StateM Source

namespace Seed

def advance (state : UInt64) : UInt64 := state * 6364136223846793005 + 11634580027462260723

/-- The output of a state: its upper bits, mixed and rotated by its highest five bits. -/
def output (state : UInt64) : UInt32 :=
  let mixed := (((state >>> 18) ^^^ state) >>> 27).toUInt32
  let amount := (state >>> 59).toUInt32
  (mixed >>> amount) ||| (mixed <<< ((32 - amount) &&& 31))

/-- The next four key words, and the state after them. -/
def row (state : UInt64) : Row × UInt64 :=
  let first := advance state
  let second := advance first
  let third := advance second
  let fourth := advance third
  (⟨output first, output second, output third, output fourth⟩, fourth)

end Seed

def Source.ofSeed (seed : UInt64) : Source :=
  let (upperKey, state) := Seed.row seed
  let (lowerKey, _) := Seed.row state
  ⟨upperKey, lowerKey, 0, []⟩

def Source.next (source : Source) : UInt32 × Source :=
  match source.pending with
  | word :: rest => (word, { source with pending := rest })
  | [] =>
    let block := Block.generate source.upperKey source.lowerKey source.counter
    (block.top.first,
      { source with counter := source.counter + 1, pending := block.words.tail })

namespace Draw

def word : Draw UInt32 := Source.next

/-- The next two words as one number, the low half first. -/
def double : Draw UInt64 := do
  let low ← word
  let high ← word
  return low.toUInt64 ||| (high.toUInt64 <<< 32)

def unitStep : Float32 := Float32.ofBits 0x33800000

/-- A multiple of `2 ^ -24` in `[0, 1)`. -/
def unit : Draw Float32 := do
  return ((← word) >>> 8).toFloat32 * unitStep

def coin : Draw Bool := do
  return (← double) < 0x8000000000000000

def wordCount : Nat := 0x100000000

/-- A number below `bound`, for a positive bound that fits a word: the integral part of `bound * x`
for a random `x` in `[0, 1)` of 64 bits, of which the lower 32 are drawn only if they can matter. -/
def below (bound : Nat) : Draw Nat := do
  let product := (← word).toNat * bound
  let whole := product / wordCount
  let fraction := product % wordCount
  if wordCount - bound < fraction then
    let further := (← word).toNat * bound / wordCount
    return if wordCount ≤ fraction + further then whole + 1 else whole
  return whole

def appendMany {α : Type} (draw : Draw α) : (count : Nat) → (taken : Array α) → Draw (Array α)
  | 0, taken => pure taken
  | count + 1, taken => do appendMany draw count (taken.push (← draw))

def many {α : Type} (draw : Draw α) (count : Nat) : Draw (Array α) := draw.appendMany count #[]

end Draw

end Arbor.Random
