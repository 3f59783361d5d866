import Arbor.Fault

/-!
# Predicate nodes

An interior node of a decision tree reads one feature, applies an operation to it and compares the
result with a bias. Numbers are 32-bit floats. Comparisons are ordered: with NaN on either side, and
on equal numbers, they are false.
-/

namespace Arbor

inductive Operation where
  | bypass
  | sqrt
  | ln
deriving DecidableEq, Repr, Inhabited

namespace Operation

/-- All operations, in the order random draws pick from. -/
def all : Array Operation := #[bypass, sqrt, ln]

def apply : Operation → Float32 → Float32
  | bypass, value => value
  | sqrt, value => value.sqrt
  | ln, value => value.log

def half : Float32 := 0.5

/-- The bias that splits uniform input on `[0, 1)` in half after the operation. -/
def balancedBias (operation : Operation) : Float32 := operation.apply half

def name : Operation → String
  | bypass => "bypass"
  | sqrt => "sqrt"
  | ln => "ln"

def ofName? : String → Option Operation
  | "bypass" => some bypass
  | "sqrt" => some sqrt
  | "ln" => some ln
  | _ => none

theorem ofName?_name (operation : Operation) : ofName? operation.name = some operation := by
  cases operation <;> rfl

end Operation

inductive Comparator where
  | lessThan
  | greaterThan
deriving DecidableEq, Repr, Inhabited

namespace Comparator

def compare : Comparator → (value bias : Float32) → Bool
  | lessThan, value, bias => value < bias
  | greaterThan, value, bias => bias < value

def name : Comparator → String
  | lessThan => "less_than"
  | greaterThan => "greater_than"

def ofName? : String → Option Comparator
  | "less_than" => some lessThan
  | "greater_than" => some greaterThan
  | _ => none

theorem ofName?_name (comparator : Comparator) : ofName? comparator.name = some comparator := by
  cases comparator <;> rfl

end Comparator

/-- An interior node. It is true of `x` when `comparator (operation x[feature]) bias`. -/
structure Node where
  feature : UInt32
  operation : Operation
  comparator : Comparator
  bias : Float32
deriving BEq, Inhabited

def Node.evaluate (node : Node) (features : Array Float32) : Except Fault Bool :=
  match features[node.feature.toNat]? with
  | none => .error (.outOfBounds features.size node.feature.toNat)
  | some value => .ok (node.comparator.compare (node.operation.apply value) node.bias)

end Arbor
