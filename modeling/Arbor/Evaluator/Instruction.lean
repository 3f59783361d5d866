import Arbor.Node

/-!
# Instructions

The machine that evaluators are written for. A function is a list of blocks, of which the first is
entered first. A block computes values one after another and ends with an exit to other blocks.
Values are numbered in the order in which their block computes them, after the address of the
feature vector, which has number 0 in every block. What other blocks need is kept in cells.

What a machine does with numbers is a parameter. All other instructions mean what their names say.

## Main definitions

* `Memory`: a feature vector at an address.
* `Instruction`, `Exit`, `Block`, `Function`: the code of an evaluator for the machine.
* `Arithmetic`, `Arithmetic.Exact`: what the machine does with numbers, and what it should do.
* `Function.run`: the word that a function returns.
-/

namespace Arbor.Evaluator

/-- A feature vector that begins at the address `base`. Every feature takes four bytes. -/
structure Memory where
  base : UInt64 := 0
  features : Array Float32

/-- A function that can be called with the address of a feature vector. -/
abbrev EntryPoint := Memory → Except Fault UInt64

/-- The feature at an address. Addresses wrap around. -/
def Memory.read (memory : Memory) (address : UInt64) : Except Fault Float32 :=
  let offset := (address - memory.base).toNat
  if offset % 4 = 0 then
    match memory.features[offset / 4]? with
    | none => .error (.outOfBounds memory.features.size (offset / 4))
    | some value => .ok value
  else .error (.misaligned offset)

structure Arithmetic where
  sqrt : Float32 → Float32
  ln : Float32 → Float32
  compare : Comparator → Float32 → Float32 → Bool

/-- The machine does with numbers what nodes do with them. -/
structure Arithmetic.Exact (arithmetic : Arithmetic) : Prop where
  sqrt_eq : arithmetic.sqrt = Operation.sqrt.apply
  ln_eq : arithmetic.ln = Operation.ln.apply
  compare_eq : arithmetic.compare = Comparator.compare

def Arithmetic.ofNodes : Arithmetic :=
  ⟨Operation.sqrt.apply, Operation.ln.apply, Comparator.compare⟩

theorem Arithmetic.exact_ofNodes : Arithmetic.ofNodes.Exact := ⟨rfl, rfl, rfl⟩

inductive Value where
  | word (bits : UInt64)
  | byte (bits : UInt8)
  | single (number : Float32)

/-- An instruction. Operands are numbers of values. -/
inductive Instruction where
  | word (bits : UInt64)
  | single (number : Float32)
  | add (operand : Nat) (amount : UInt64)
  /-- The feature at an address plus a signed offset. -/
  | load (address : Nat) (offset : Int32)
  | sqrt (operand : Nat)
  | ln (operand : Nat)
  /-- A byte that is 1 if the left operand is on the comparator's side of the right one, else 0. -/
  | compare (comparator : Comparator) (left right : Nat)
  /-- A byte as a word. -/
  | extend (operand : Nat)
  | shiftLeft (operand : Nat) (amount : UInt64)
  | or (left right : Nat)
  /-- Keeps a word in a cell. This computes no value. -/
  | keep (cell operand : Nat)
  /-- The word in a cell. -/
  | reload (cell : Nat)

inductive Exit where
  | jump (target : Nat)
  /-- Goes to the first target unless a byte is 0. -/
  | branch (operand onTrue onFalse : Nat)
  /-- Goes to the target with the number that is a word, or to `otherwise` if there is none. -/
  | switch (operand : Nat) (targets : Array Nat) (otherwise : Nat)
  | finish (operand : Nat)
  /-- The block has not been written. -/
  | trap

structure Block where
  body : List Instruction
  exit : Exit

instance : Inhabited Block := ⟨[], .trap⟩

structure Function where
  blocks : Array Block

/-- The values that a block has computed so far, and all cells. -/
structure Frame where
  values : Array Value
  cells : Nat → Option UInt64

namespace Frame

variable (frame : Frame)

def push (value : Value) : Frame := { frame with values := frame.values.push value }

def keep (cell : Nat) (bits : UInt64) : Frame :=
  { frame with cells := fun other => if other = cell then some bits else frame.cells other }

def word (operand : Nat) : Except Fault UInt64 :=
  match frame.values[operand]? with
  | some (.word bits) => .ok bits
  | _ => .error (.noValue operand)

def byte (operand : Nat) : Except Fault UInt8 :=
  match frame.values[operand]? with
  | some (.byte bits) => .ok bits
  | _ => .error (.noValue operand)

def single (operand : Nat) : Except Fault Float32 :=
  match frame.values[operand]? with
  | some (.single number) => .ok number
  | _ => .error (.noValue operand)

def cell (cell : Nat) : Except Fault UInt64 :=
  match frame.cells cell with
  | some bits => .ok bits
  | none => .error (.noCell cell)

end Frame

section

variable (arithmetic : Arithmetic) (memory : Memory)

def Instruction.step (frame : Frame) : Instruction → Except Fault Frame
  | word bits => .ok (frame.push (.word bits))
  | single number => .ok (frame.push (.single number))
  | add operand amount => do return frame.push (.word ((← frame.word operand) + amount))
  | load address offset => do
    let address := (← frame.word address) + offset.toInt64.toUInt64
    return frame.push (.single (← memory.read address))
  | sqrt operand => do return frame.push (.single (arithmetic.sqrt (← frame.single operand)))
  | ln operand => do return frame.push (.single (arithmetic.ln (← frame.single operand)))
  | compare comparator left right => do
    let holds := arithmetic.compare comparator (← frame.single left) (← frame.single right)
    return frame.push (.byte (if holds then 1 else 0))
  | extend operand => do return frame.push (.word (← frame.byte operand).toUInt64)
  | shiftLeft operand amount => do return frame.push (.word ((← frame.word operand) <<< amount))
  | or left right => do return frame.push (.word ((← frame.word left) ||| (← frame.word right)))
  | keep cell operand => do return frame.keep cell (← frame.word operand)
  | reload cell => do return frame.push (.word (← frame.cell cell))

def runBody (body : List Instruction) (cells : Nat → Option UInt64) : Except Fault Frame :=
  body.foldlM (Instruction.step arithmetic memory) ⟨#[.word memory.base], cells⟩

def Exit.follow (frame : Frame) : Exit → Except Fault (Nat ⊕ UInt64)
  | jump target => .ok (.inl target)
  | branch operand onTrue onFalse => do
    return .inl (if (← frame.byte operand) ≠ 0 then onTrue else onFalse)
  | switch operand targets otherwise => do
    return .inl (targets[(← frame.word operand).toNat]?.getD otherwise)
  | finish operand => do return .inr (← frame.word operand)
  | trap => .error .trap

namespace Function

variable (function : Function)

/-- The word that is returned after a block is entered. At most `fuel` blocks are. -/
def enter : (fuel block : Nat) → (cells : Nat → Option UInt64) → Except Fault UInt64
  | 0, _, _ => .error .endless
  | fuel + 1, block, cells =>
    match function.blocks[block]? with
    | none => .error (.noBlock block)
    | some ⟨body, exit⟩ => do
      let frame ← runBody arithmetic memory body cells
      match ← exit.follow frame with
      | .inl target => enter fuel target frame.cells
      | .inr bits => return bits

/-- The word that a function returns. A function that enters no block twice is done after at most
as many blocks as it has. -/
def run : EntryPoint := fun memory =>
  function.enter arithmetic memory function.blocks.size 0 fun _ => none

end Function

end

end Arbor.Evaluator
