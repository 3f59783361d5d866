import Arbor.Evaluator.Path

/-!
# Variants of a path

A path requires some bits of a condition vector and leaves the others free. Its variants are all
vectors that agree with it; each becomes a case label.
-/

namespace Arbor.Evaluator

/-- The vector with the required bits of a path and zero elsewhere. -/
def fixedTemplate : PathBits → Except Fault Nat
  | [] => .ok 0
  | (bit, value) :: rest => do
    let mask ← Word.bit bit
    let vector ← fixedTemplate rest
    return if value then mask ||| vector else vector

def freeBits (conditionBits : Nat) (bits : PathBits) : List Nat :=
  (List.range conditionBits).filter (!bits.contains ·)

/-- All ways to set the free bits, each bit set before it is left clear. -/
def vary (vector : Nat) : (free : List Nat) → List Nat
  | [] => [vector]
  | bit :: rest => vary (vector ||| Nat.pow 2 bit) rest ++ vary vector rest

/-- `Evaluator.vary` within words. It stops at a bit that is set already. -/
def Bounded.vary (vector : Nat) : (free : List Nat) → Except Fault (List Nat)
  | [] => .ok [vector]
  | bit :: rest => do
    let mask ← Word.bit bit
    if vector &&& mask ≠ 0 then throw (.variedTwice bit)
    let whenSet ← vary (vector ||| mask) rest
    return whenSet ++ (← vary vector rest)

/-- All vectors of `conditionBits` bits that agree with a path. -/
def variants (conditionBits : Nat) (bits : PathBits) : Except Fault (List Nat) := do
  let free := freeBits conditionBits bits
  let planned ← Word.bit free.length
  let vectors ← Bounded.vary (← fixedTemplate bits) free
  if vectors.length ≠ planned then throw (.otherLength vectors.length planned)
  return vectors

end Arbor.Evaluator
