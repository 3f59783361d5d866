/-!
# Faults

A fault is a request outside the domain of an operation: an index beyond the end of an array, a sum
that does not fit a machine word, a feature vector that is too short. Faults are values, so every
operation of this library is total and says in its type when it can stop.
-/

namespace Arbor

inductive Fault where
  /-- A sum does not fit its word. -/
  | addOverflow
  /-- A difference is below zero. -/
  | subOverflow
  /-- A product does not fit its word. -/
  | mulOverflow
  /-- A shift by at least the width of the word. -/
  | shiftOverflow
  | divisionByZero
  | remainderByZero
  /-- A lower bound above the upper one. -/
  | crossedBounds
  /-- An access at `index` in a sequence of `size` entries. -/
  | outOfBounds (size index : Nat)
  /-- A node without a bit position. -/
  | missingKey
  /-- Boundary levels that are zero levels apart. -/
  | zeroStep
  /-- A slot was asked for a node between two boundary levels. -/
  | notBoundary (index : Nat)
  /-- Elapsed times whose sum does not fit a duration. -/
  | durationOverflow
  /-- A feature vector shorter than the resolver was built for. -/
  | tooFewFeatures (expected given : Nat)
  /-- A tree of another depth than the resolver's. -/
  | otherTree (tree resolver : Nat)
  /-- A condition vector that no case label covers. -/
  | uncovered (vector : Nat)
  /-- A condition vector that two case labels cover. -/
  | coveredTwice (vector : Nat)
  /-- A bit was to be varied that is set already. -/
  | variedTwice (bit : Nat)
  /-- A list has another length than was planned. -/
  | otherLength (length planned : Nat)
  /-- A value that was not computed or is of another kind. -/
  | noValue (value : Nat)
  | noCell (cell : Nat)
  | noBlock (block : Nat)
  /-- A read that begins inside of a feature. -/
  | misaligned (offset : Nat)
  /-- A block was entered that has not been written. -/
  | trap
  /-- A function has entered more blocks than it has. -/
  | endless
deriving DecidableEq, Repr, Inhabited

def Fault.message : Fault → String
  | addOverflow => "attempt to add with overflow"
  | subOverflow => "attempt to subtract with overflow"
  | mulOverflow => "attempt to multiply with overflow"
  | shiftOverflow => "attempt to shift left with overflow"
  | divisionByZero => "attempt to divide by zero"
  | remainderByZero => "attempt to calculate the remainder with a divisor of zero"
  | crossedBounds => "assertion failed: min <= max"
  | outOfBounds size index =>
    s!"index out of bounds: the len is {size} but the index is {index}"
  | missingKey => "no entry found for key"
  | zeroStep => "assertion failed: step != 0"
  | notBoundary index => s!"node {index} is not on a boundary level"
  | durationOverflow => "overflow in iter::sum over durations"
  | tooFewFeatures expected given => s!"expected {expected} features, got {given}"
  | otherTree tree resolver =>
    "assertion `left == right` failed: resolver built for another tree\n"
      ++ s!"  left: {tree}\n right: {resolver}"
  | uncovered vector => s!"no case for condition vector {vector}"
  | coveredTwice vector => s!"Tried to set the same entry {vector} twice"
  | variedTwice bit =>
    s!"assertion `left == right` failed: bit {bit} varied twice\n  left: {Nat.pow 2 bit}\n right: 0"
  | otherLength length planned =>
    s!"assertion `left == right` failed\n  left: {length}\n right: {planned}"
  | noValue value => s!"no value {value} of this kind"
  | noCell cell => s!"cell {cell} is empty"
  | noBlock block => s!"no block {block}"
  | misaligned offset => s!"misaligned read at offset {offset}"
  | trap => "block is not written"
  | endless => "function does not end"

end Arbor
