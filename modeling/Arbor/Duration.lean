import Arbor.Word

/-!
# Durations

Durations are natural numbers of nanoseconds. Rates are computed with 64-bit floats.
-/

namespace Arbor.Duration

def second : Nat := 1000000000

/-- The whole seconds of a duration have to fit a word. -/
def limit : Nat := Word.limit * second

def floatOf (n : Nat) : Float := n.toUInt64.toFloat

def seconds (nanoseconds : Nat) : Float :=
  floatOf (nanoseconds / second) + floatOf (nanoseconds % second) / 1e9

def milliseconds (nanoseconds : Nat) : Nat := nanoseconds / 1000000

end Arbor.Duration
