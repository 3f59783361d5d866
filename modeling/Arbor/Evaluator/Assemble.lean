import Arbor.Evaluator.Code
import Arbor.Evaluator.Instruction

/-!
# Assembly

From the code of an evaluator to a function of the machine. Code is placed into the block that is
being written. A branch or a switch ends this block and creates one block for every arm and one in
which the arms meet again. Every arm keeps its result in a cell that belongs to the branch or the
switch, and there it is recalled where the arms meet.

## Main definitions

* `Builder`, `BuilderM`: a function that is being written, and actions that write it.
* `placeTest`, `placeVector`: the instructions of a predicate and of a condition vector.
* `Code.place`: the blocks of a piece of code.
* `Code.assemble`: the function of an evaluator.
-/

namespace Arbor.Evaluator

structure Builder where
  /-- The blocks, with `none` for those that have been created only. -/
  blocks : Array (Option Block) := #[]
  /-- The block that is being written. -/
  current : Nat := 0
  /-- Its instructions, the last one first. -/
  body : List Instruction := []
  /-- How many values it has. -/
  values : Nat := 1
  /-- How many cells have been taken. -/
  cells : Nat := 0

abbrev BuilderM := StateM Builder

namespace Builder

/-- Creates some blocks and returns the number of the first. -/
def createBlocks (count : Nat) : BuilderM Nat :=
  modifyGet fun builder =>
    (builder.blocks.size, { builder with blocks := builder.blocks ++ Array.replicate count none })

def switchTo (block : Nat) : BuilderM Unit :=
  modify ({ · with current := block, body := [], values := 1 })

def takeCell : BuilderM Nat :=
  modifyGet fun builder => (builder.cells, { builder with cells := builder.cells + 1 })

/-- Adds an instruction that computes a value, and returns the number of the value. -/
def compute (instruction : Instruction) : BuilderM Nat :=
  modifyGet fun builder =>
    (builder.values,
      { builder with body := instruction :: builder.body, values := builder.values + 1 })

def keep (cell operand : Nat) : BuilderM Unit :=
  modify fun builder => { builder with body := .keep cell operand :: builder.body }

def leave (exit : Exit) : BuilderM Unit :=
  modify fun builder =>
    let block := ⟨builder.body.reverse, exit⟩
    { builder with blocks := builder.blocks.setIfInBounds builder.current (some block) }

end Builder

open Builder

/-- The number of the feature's value. An offset that is too large for a load is added before. -/
def placeLoad (feature : UInt32) : BuilderM Nat :=
  let offset := 4 * feature.toNat
  if offset < 0x80000000 then compute (.load 0 (.ofNat offset))
  else do compute (.load (← compute (.add 0 (.ofNat offset))) 0)

def placeOperation (operation : Operation) (operand : Nat) : BuilderM Nat :=
  match operation with
  | .bypass => pure operand
  | .sqrt => compute (.sqrt operand)
  | .ln => compute (.ln operand)

def placeComparison (comparator : Comparator) (bias : Float32) (operand : Nat) : BuilderM Nat := do
  compute (.compare comparator operand (← compute (.single bias)))

def placeTest (test : Node) : BuilderM Nat := do
  let feature ← placeLoad test.feature
  let operand ← placeOperation test.operation feature
  placeComparison test.comparator test.bias operand

def placeShift (operand bit : Nat) : BuilderM Nat :=
  if bit = 0 then pure operand else compute (.shiftLeft operand (.ofNat bit))

/-- Adds the outcomes of the tests to a condition vector, from `bit` on. -/
def placeBits : (tests : List Node) → (bit vector : Nat) → BuilderM Nat
  | [], _, vector => return vector
  | test :: rest, bit, vector => do
    let wide ← compute (.extend (← placeTest test))
    let shifted ← placeShift wide bit
    placeBits rest (bit + 1) (← compute (.or vector shifted))

def placeVector (tests : List Node) : BuilderM Nat := do
  placeBits tests 0 (← compute (.word 0))

/-- Writes an arm into `block`. It keeps its result in `cell` and goes on at `meeting`. -/
def placeArm (cell meeting block : Nat) (place : BuilderM Nat) : BuilderM Unit := do
  switchTo block
  keep cell (← place)
  leave (.jump meeting)

mutual

/-- Writes code from here on. Afterwards the builder is in a block that has the result, the number
of which is returned. -/
def Code.place : Code → BuilderM Nat
  | .goto next => compute (.word (.ofNat next))
  | .branch test onTrue onFalse => do
    let outcome ← placeTest test
    let first ← createBlocks 2
    let meeting ← createBlocks 1
    let cell ← takeCell
    leave (.branch outcome first (first + 1))
    placeArm cell meeting first onTrue.place
    placeArm cell meeting (first + 1) onFalse.place
    switchTo meeting
    compute (.reload cell)
  | .switch tests table arms => do
    let vector ← placeVector tests
    let meeting ← createBlocks 1
    let cell ← takeCell
    let first ← createBlocks arms.length
    -- a vector without an arm goes where the arms meet, and finds nothing there
    let targets := table.map fun arm => if arm < arms.length then first + arm else meeting
    leave (.switch vector targets meeting)
    Code.placeArms cell meeting arms first
    switchTo meeting
    compute (.reload cell)

def Code.placeArms (cell meeting : Nat) : (arms : List Code) → (block : Nat) → BuilderM Unit
  | [], _ => pure ()
  | code :: rest, block => do
    placeArm cell meeting block code.place
    Code.placeArms cell meeting rest (block + 1)

end

def Code.assemble (code : Code) : Function :=
  let write : BuilderM Unit := do
    switchTo (← createBlocks 1)
    leave (.finish (← code.place))
  ⟨(write {}).2.blocks.map (·.getD default)⟩

end Arbor.Evaluator
