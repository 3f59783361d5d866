import Arbor.Fault

/-!
# Arithmetic in 64-bit words

Node indices are 64-bit words. The operations below agree with those of the natural numbers as long
as the result fits, and stop with a fault otherwise.
-/

namespace Arbor.Word

def limit : Nat := 0x10000000000000000

def add (a b : Nat) : Except Fault Nat :=
  if a + b < limit then .ok (a + b) else .error .addOverflow

def sub (a b : Nat) : Except Fault Nat :=
  if b ≤ a then .ok (a - b) else .error .subOverflow

def mul (a b : Nat) : Except Fault Nat :=
  if a * b < limit then .ok (a * b) else .error .mulOverflow

def bit (position : Nat) : Except Fault Nat :=
  if position < 64 then .ok (Nat.pow 2 position) else .error .shiftOverflow

def div (a b : Nat) : Except Fault Nat :=
  if b = 0 then .error .divisionByZero else .ok (a / b)

def rem (a b : Nat) : Except Fault Nat :=
  if b = 0 then .error .remainderByZero else .ok (a % b)

def clamp (a low high : Nat) : Except Fault Nat :=
  if low ≤ high then .ok (max low (min a high)) else .error .crossedBounds

def low32 (a : Nat) : Nat := a % 0x100000000

theorem add_of_lt {a b : Nat} (h : a + b < limit) : add a b = .ok (a + b) := if_pos h

theorem sub_of_le {a b : Nat} (h : b ≤ a) : sub a b = .ok (a - b) := if_pos h

theorem mul_of_lt {a b : Nat} (h : a * b < limit) : mul a b = .ok (a * b) := if_pos h

theorem bit_of_lt {position : Nat} (h : position < 64) : bit position = .ok (Nat.pow 2 position) :=
  if_pos h

theorem bit_of_le {position : Nat} (h : 64 ≤ position) : bit position = .error .shiftOverflow :=
  if_neg (by omega)

theorem rem_of_pos {a b : Nat} (h : 0 < b) : rem a b = .ok (a % b) := if_neg (Nat.ne_of_gt h)

theorem clamp_of_le {a low high : Nat} (h : low ≤ high) :
    clamp a low high = .ok (max low (min a high)) := if_pos h

end Arbor.Word
