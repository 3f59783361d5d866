import Arbor.Evaluator.Assemble
import Arbor.Proofs.Evaluator.Emission
import Mathlib.Data.UInt
import Mathlib.Tactic.Ring

/-!
# Straight code

What a builder adds to a block is described by the frame that the block has then, or by the fault
with which it ends. Pieces of straight code are put together by `Computes.bind`. In this way
predicates and condition vectors compute what nodes and switches do.

## Main definitions

* `Builder.Ready`: the frame after the instructions that the current block has so far.
* `Straight`, `Computes`: a builder adds instructions to a block, and they have some result.

## Main statements

* `computes_placeLoad`: a feature is read, also if its offset is too large for an instruction.
* `computes_placeTest`, `computes_placeVector`: predicates and condition vectors.
-/

namespace Arbor.Evaluator

open Builder

def Frame.Within (frame after : Frame) : Prop :=
  ∀ (operand : Nat) (value : Value), frame.values[operand]? = some value →
    after.values[operand]? = some value

theorem Frame.Within.refl (frame : Frame) : frame.Within frame := fun _ _ h => h

theorem Frame.Within.trans {first second third : Frame} (h : first.Within second)
    (k : second.Within third) : first.Within third :=
  fun operand value found => k operand value (h operand value found)

theorem Frame.within_push (frame : Frame) (value : Value) : frame.Within (frame.push value) := by
  intro operand other found
  have inside := (Array.getElem?_eq_some_iff.1 found).1
  rwa [push, Array.getElem?_push_lt inside, ← Array.getElem?_eq_getElem inside]

theorem Frame.word_eq {frame : Frame} {operand : Nat} {bits : UInt64}
    (h : frame.values[operand]? = some (.word bits)) : frame.word operand = .ok bits := by
  rw [word, h]

theorem Frame.byte_eq {frame : Frame} {operand : Nat} {bits : UInt8}
    (h : frame.values[operand]? = some (.byte bits)) : frame.byte operand = .ok bits := by
  rw [byte, h]

theorem Frame.single_eq {frame : Frame} {operand : Nat} {number : Float32}
    (h : frame.values[operand]? = some (.single number)) :
    frame.single operand = .ok number := by
  rw [single, h]

variable {arithmetic : Arithmetic} {memory : Memory} {builder : Builder}
  {cells : Nat → Option UInt64} {frame : Frame}

/-! ## Straight code -/

variable (arithmetic memory) in
def Builder.outcome (builder : Builder) (cells : Nat → Option UInt64) : Except Fault Frame :=
  runBody arithmetic memory builder.body.reverse cells

variable (arithmetic memory) in
structure Builder.Ready (builder : Builder) (cells : Nat → Option UInt64) (frame : Frame) :
    Prop where
  outcome_eq : builder.outcome arithmetic memory cells = .ok frame
  size_eq : frame.values.size = builder.values
  base_eq : frame.values[0]? = some (.word memory.base)

variable (arithmetic memory) in
/-- From a frame of the current block on, the action adds instructions that compute a value, or that
end with a fault. -/
def Computes (action : BuilderM Nat) (builder : Builder) (cells : Nat → Option UInt64)
    (frame : Frame) (result : Except Fault Value) : Prop :=
  match result with
  | .ok value => ∃ after, (action builder).2.Ready arithmetic memory cells after ∧
      frame.Within after ∧ after.values[(action builder).1]? = some value
  | .error fault => (action builder).2.outcome arithmetic memory cells = .error fault

/-- The action only adds instructions to the current block. -/
def Straight (action : BuilderM Nat) : Prop :=
  ∀ builder, ∃ added values, (action builder).2 =
    { builder with body := added ++ builder.body, values }

theorem straight_pure (operand : Nat) : Straight (pure operand) := fun _ => ⟨[], _, rfl⟩

theorem straight_compute (instruction : Instruction) : Straight (compute instruction) :=
  fun _ => ⟨[instruction], _, rfl⟩

theorem Straight.bind {action : BuilderM Nat} {next : Nat → BuilderM Nat} (first : Straight action)
    (rest : ∀ operand, Straight (next operand)) : Straight (action >>= next) := by
  intro builder
  obtain ⟨added, values, h⟩ := first builder
  obtain ⟨more, values', h'⟩ := rest (action builder).1 (action builder).2
  refine ⟨more ++ added, values', ?_⟩
  change (next (action builder).1 (action builder).2).2 = _
  rw [h', h, List.append_assoc]

/-- What went wrong in a block stays wrong. -/
theorem Straight.outcome_of_error {action : BuilderM Nat} (straight : Straight action)
    {fault : Fault} (h : builder.outcome arithmetic memory cells = .error fault) :
    (action builder).2.outcome arithmetic memory cells = .error fault := by
  obtain ⟨added, values, same⟩ := straight builder
  rw [outcome, runBody] at h
  rw [same, outcome, runBody, List.reverse_append, List.foldlM_append, h]
  rfl

theorem Computes.bind_of_ok {action : BuilderM Nat} {next : Nat → BuilderM Nat} {value : Value}
    {result : Except Fault Value}
    (first : Computes arithmetic memory action builder cells frame (.ok value))
    (rest : ∀ operand after, (action builder).2.Ready arithmetic memory cells after →
      frame.Within after → after.values[operand]? = some value →
      Computes arithmetic memory (next operand) (action builder).2 cells after result) :
    Computes arithmetic memory (action >>= next) builder cells frame result := by
  obtain ⟨after, ready, within, found⟩ := first
  have second := rest _ after ready within found
  cases result with
  | error fault => exact second
  | ok value =>
    obtain ⟨last, ready, later, found⟩ := second
    exact ⟨last, ready, within.trans later, found⟩

theorem Computes.bind {α : Type} {action : BuilderM Nat} {next : Nat → BuilderM Nat}
    {result : Except Fault α} {kind : α → Value} {later : α → Except Fault Value}
    (first : Computes arithmetic memory action builder cells frame (kind <$> result))
    (straight : ∀ operand, Straight (next operand))
    (rest : ∀ a operand after, (action builder).2.Ready arithmetic memory cells after →
      frame.Within after → after.values[operand]? = some (kind a) →
      Computes arithmetic memory (next operand) (action builder).2 cells after (later a)) :
    Computes arithmetic memory (action >>= next) builder cells frame (result >>= later) := by
  cases result with
  | error fault => exact (straight _).outcome_of_error first
  | ok a => exact first.bind_of_ok (rest a)

theorem outcome_compute (instruction : Instruction) :
    (compute instruction builder).2.outcome arithmetic memory cells =
      builder.outcome arithmetic memory cells >>=
        fun frame => instruction.step arithmetic memory frame := by
  change runBody arithmetic memory (instruction :: builder.body).reverse cells = _
  simp only [runBody, List.reverse_cons, List.foldlM_append, List.foldlM_cons, List.foldlM_nil,
    bind_pure]
  rfl

/-- An instruction computes what its step adds to the frame. -/
theorem computes_compute (ready : builder.Ready arithmetic memory cells frame)
    {instruction : Instruction} {result : Except Fault Value}
    (step : instruction.step arithmetic memory frame = frame.push <$> result) :
    Computes arithmetic memory (compute instruction) builder cells frame result := by
  have outcome := @outcome_compute arithmetic memory builder cells instruction
  rw [ready.outcome_eq, ok_bind, step] at outcome
  cases result with
  | error fault => exact outcome
  | ok value =>
    have found : (frame.push value).values[builder.values]? = some value := by
      rw [Frame.push, ← ready.size_eq, Array.getElem?_push_size]
    refine ⟨frame.push value, ⟨outcome, ?_, ?_⟩, frame.within_push value, found⟩
    · rw [Frame.push, Array.size_push, ready.size_eq]
      rfl
    · exact frame.within_push value 0 _ ready.base_eq

theorem computes_pure (ready : builder.Ready arithmetic memory cells frame) {operand : Nat}
    {value : Value} (found : frame.values[operand]? = some value) :
    Computes arithmetic memory (pure operand) builder cells frame (.ok value) :=
  ⟨frame, ready, .refl frame, found⟩

/-! ## Predicates -/

def Memory.feature (memory : Memory) (index : UInt32) : Except Fault Float32 :=
  match memory.features[index.toNat]? with
  | none => .error (.outOfBounds memory.features.size index.toNat)
  | some value => .ok value

/-- A feature is read at four times its index. -/
theorem Memory.read_eq (memory : Memory) (index : UInt32) :
    memory.read (memory.base + .ofNat (4 * index.toNat)) = memory.feature index := by
  have offset : (memory.base + .ofNat (4 * index.toNat) - memory.base).toNat =
      4 * index.toNat := by
    have := index.toNat_lt
    rw [UInt64.add_comm, UInt64.add_sub_cancel, UInt64.toNat_ofNat', Nat.mod_eq_of_lt (by omega)]
  simp only [read, offset, Nat.mul_mod_right, Nat.mul_div_cancel_left _ (Nat.succ_pos 3), if_true]
  rfl

/-- Offsets that fit a load are not changed by its sign. -/
theorem toUInt64_ofNat {offset : Nat} (small : offset < 0x80000000) :
    (Int32.ofNat offset).toInt64.toUInt64 = .ofNat offset := by
  have fits : (offset : Int) ≤ Int32.maxValue.toInt := by
    rw [show Int32.maxValue.toInt = 0x7fffffff by decide]
    omega
  rw [Int32.toInt64_ofNat' fits]
  rfl

theorem straight_placeLoad (index : UInt32) : Straight (placeLoad index) := by
  simp only [placeLoad]
  split
  · exact straight_compute _
  · exact (straight_compute _).bind fun _ => straight_compute _

theorem step_load {operand : Nat} {address : UInt64} (offset : Int32)
    (found : frame.values[operand]? = some (.word address)) :
    (Instruction.load operand offset).step arithmetic memory frame =
      frame.push <$> Value.single <$> memory.read (address + offset.toInt64.toUInt64) := by
  rw [Instruction.step, Frame.word_eq found, ok_bind]
  simp only
  cases memory.read (address + offset.toInt64.toUInt64) <;> rfl

theorem computes_placeLoad (ready : builder.Ready arithmetic memory cells frame) (index : UInt32) :
    Computes arithmetic memory (placeLoad index) builder cells frame
      (Value.single <$> memory.feature index) := by
  rw [← memory.read_eq]
  simp only [placeLoad]
  split
  · next small =>
    rw [← toUInt64_ofNat small]
    exact computes_compute ready (step_load _ ready.base_eq)
  · have address : Computes arithmetic memory (compute (.add 0 (.ofNat (4 * index.toNat)))) builder
        cells frame (.ok (.word (memory.base + .ofNat (4 * index.toNat)))) := by
      apply computes_compute ready
      rw [Instruction.step, Frame.word_eq ready.base_eq]
      rfl
    refine address.bind_of_ok fun operand after ready _ found => computes_compute ready ?_
    rw [step_load 0 found, show (0 : Int32).toInt64.toUInt64 = 0 by decide, UInt64.add_zero]

theorem straight_placeOperation (operation : Operation) (operand : Nat) :
    Straight (placeOperation operation operand) := by
  cases operation with
  | bypass => exact straight_pure operand
  | sqrt => exact straight_compute _
  | ln => exact straight_compute _

theorem computes_placeOperation (precise : arithmetic.Exact)
    (ready : builder.Ready arithmetic memory cells frame) (operation : Operation) {operand : Nat}
    {number : Float32} (found : frame.values[operand]? = some (.single number)) :
    Computes arithmetic memory (placeOperation operation operand) builder cells frame
      (.ok (.single (operation.apply number))) := by
  cases operation with
  | bypass => exact computes_pure ready found
  | sqrt =>
    apply computes_compute ready
    rw [Instruction.step, Frame.single_eq found, precise.sqrt_eq]
    rfl
  | ln =>
    apply computes_compute ready
    rw [Instruction.step, Frame.single_eq found, precise.ln_eq]
    rfl

def Value.ofOutcome (outcome : Bool) : Value := .byte (if outcome then 1 else 0)

theorem straight_placeComparison (comparator : Comparator) (bias : Float32) (operand : Nat) :
    Straight (placeComparison comparator bias operand) :=
  (straight_compute _).bind fun _ => straight_compute _

theorem computes_placeComparison (precise : arithmetic.Exact)
    (ready : builder.Ready arithmetic memory cells frame) (comparator : Comparator)
    (bias : Float32) {operand : Nat} {number : Float32}
    (found : frame.values[operand]? = some (.single number)) :
    Computes arithmetic memory (placeComparison comparator bias operand) builder cells frame
      (.ok (.ofOutcome (comparator.compare number bias))) := by
  have constant : Computes arithmetic memory (compute (.single bias)) builder cells frame
      (.ok (.single bias)) := computes_compute ready rfl
  refine constant.bind_of_ok fun other after ready within there => computes_compute ready ?_
  rw [Instruction.step, Frame.single_eq (within _ _ found), Frame.single_eq there,
    precise.compare_eq]
  rfl

theorem straight_placeTest (test : Node) : Straight (placeTest test) :=
  (straight_placeLoad _).bind fun _ => (straight_placeOperation _ _).bind fun _ =>
    straight_placeComparison _ _ _

/-- A predicate computes its outcome. -/
theorem computes_placeTest (precise : arithmetic.Exact)
    (ready : builder.Ready arithmetic memory cells frame) (test : Node) :
    Computes arithmetic memory (placeTest test) builder cells frame
      (Value.ofOutcome <$> test.evaluate memory.features) := by
  have evaluate : Value.ofOutcome <$> test.evaluate memory.features =
      memory.feature test.feature >>= fun number =>
        .ok (.ofOutcome (test.comparator.compare (test.operation.apply number) test.bias)) := by
    unfold Node.evaluate Memory.feature
    cases memory.features[test.feature.toNat]? <;> rfl
  rw [evaluate]
  refine (computes_placeLoad ready test.feature).bind
    (fun _ => (straight_placeOperation _ _).bind fun _ => straight_placeComparison _ _ _) ?_
  intro number operand after ready _ found
  refine (computes_placeOperation precise ready test.operation found).bind_of_ok ?_
  intro operand after ready _ found
  exact computes_placeComparison precise ready test.comparator test.bias found

/-! ## Condition vectors -/

theorem straight_placeShift (operand bit : Nat) : Straight (placeShift operand bit) := by
  unfold placeShift
  split
  · exact straight_pure operand
  · exact straight_compute _

theorem straight_placeBits (tests : List Node) (bit vector : Nat) :
    Straight (placeBits tests bit vector) := by
  induction tests generalizing bit vector with
  | nil => exact straight_pure vector
  | cons test rest ih =>
    refine (straight_placeTest test).bind fun _ => (straight_compute _).bind fun _ => ?_
    exact (straight_placeShift _ _).bind fun _ => (straight_compute _).bind fun _ => ih _ _

theorem computes_extend (ready : builder.Ready arithmetic memory cells frame) {operand : Nat}
    {outcome : Bool} (found : frame.values[operand]? = some (.ofOutcome outcome)) :
    Computes arithmetic memory (compute (.extend operand)) builder cells frame
      (.ok (.word (.ofNat outcome.toNat))) := by
  apply computes_compute ready
  rw [Instruction.step, Frame.byte_eq found]
  cases outcome <;> rfl

theorem computes_or (ready : builder.Ready arithmetic memory cells frame) {left right : Nat}
    {bits others : UInt64} (first : frame.values[left]? = some (.word bits))
    (second : frame.values[right]? = some (.word others)) :
    Computes arithmetic memory (compute (.or left right)) builder cells frame
      (.ok (.word (bits ||| others))) := by
  apply computes_compute ready
  rw [Instruction.step, Frame.word_eq first, Frame.word_eq second]
  rfl

/-- The outcome of a test is shifted to its place in the vector. -/
theorem computes_placeShift (ready : builder.Ready arithmetic memory cells frame)
    {operand bit : Nat} {outcome : Bool}
    (found : frame.values[operand]? = some (.word (.ofNat outcome.toNat))) (less : bit < 64) :
    Computes arithmetic memory (placeShift operand bit) builder cells frame
      (.ok (.word (.ofNat (outcome.toNat * 2 ^ bit)))) := by
  unfold placeShift
  split
  · next first => exact computes_pure ready (by rw [found, first]; simp)
  · apply computes_compute ready
    have shifted : UInt64.ofNat outcome.toNat <<< UInt64.ofNat bit =
        .ofNat (outcome.toNat * 2 ^ bit) := by
      rw [← UInt64.toNat_inj, UInt64.toNat_shiftLeft, Nat.shiftLeft_eq]
      simp [Nat.mod_eq_of_lt less]
    rw [Instruction.step, Frame.word_eq found, ok_bind, shifted]
    rfl

/-- An outcome is added above all those that were added before. -/
theorem or_outcome {bits : UInt64} {bit : Nat} (low : bits.toNat < 2 ^ bit) (less : bit < 64)
    (outcome : Bool) :
    (bits ||| .ofNat (outcome.toNat * 2 ^ bit)).toNat = bits.toNat + outcome.toNat * 2 ^ bit := by
  have small : outcome.toNat * 2 ^ bit < 2 ^ 64 := by
    have : 2 ^ bit < 2 ^ 64 := Nat.pow_lt_pow_right (by decide) less
    cases outcome with
    | false => simp
    | true => simpa using this
  rw [UInt64.toNat_or, UInt64.toNat_ofNat', Nat.mod_eq_of_lt small, Nat.or_comm, Nat.mul_comm,
    ← Nat.two_pow_add_eq_or_of_lt low, Nat.add_comm]

theorem computes_placeBits (precise : arithmetic.Exact) {tests : List Node} {bit vector : Nat}
    {bits : UInt64} (ready : builder.Ready arithmetic memory cells frame)
    (found : frame.values[vector]? = some (.word bits)) (low : bits.toNat < 2 ^ bit)
    (narrow : bit + tests.length ≤ 64) :
    Computes arithmetic memory (placeBits tests bit vector) builder cells frame
      ((fun rest => .word (.ofNat (bits.toNat + rest * 2 ^ bit))) <$>
        conditionVector memory.features tests) := by
  induction tests generalizing bit vector bits builder frame with
  | nil =>
    refine computes_pure ready (found.trans ?_)
    simp
  | cons test rest ih =>
    rw [List.length_cons] at narrow
    have less : bit < 64 := by omega
    rw [conditionVector, map_bind]
    refine (computes_placeTest precise ready test).bind
      (fun _ => (straight_compute _).bind fun _ => (straight_placeShift _ _).bind fun _ =>
        (straight_compute _).bind fun _ => straight_placeBits _ _ _) ?_
    intro outcome operand after ready within there
    refine (computes_extend ready there).bind_of_ok fun wide extended ready keeps there => ?_
    have within := within.trans keeps
    refine (computes_placeShift ready there less).bind_of_ok
      fun shifted placed ready keeps there => ?_
    have within := within.trans keeps
    refine (computes_or ready (within _ _ found) there).bind_of_ok fun sum last ready _ there => ?_
    have sum_eq := or_outcome low less outcome
    have sum_lt : (bits ||| .ofNat (outcome.toNat * 2 ^ bit)).toNat < 2 ^ (bit + 1) := by
      have := Nat.mul_le_mul_right (2 ^ bit) outcome.toNat_le
      rw [sum_eq, Nat.pow_succ]
      omega
    -- The rest of the tests goes on one bit higher, from the vector with this outcome.
    have others := ih ready there sum_lt (by omega)
    rw [sum_eq] at others
    convert others using 1
    cases conditionVector memory.features rest with
    | error fault => rfl
    | ok vector =>
      have same : bits.toNat + (2 * vector + outcome.toNat) * 2 ^ bit =
          bits.toNat + outcome.toNat * 2 ^ bit + vector * 2 ^ (bit + 1) := by ring
      exact congrArg (fun bits => Except.ok (Value.word (.ofNat bits))) same

theorem straight_placeVector (tests : List Node) : Straight (placeVector tests) :=
  (straight_compute _).bind fun _ => straight_placeBits _ _ _

/-- The tests of a switch compute its condition vector. -/
theorem computes_placeVector (precise : arithmetic.Exact)
    (ready : builder.Ready arithmetic memory cells frame) {tests : List Node}
    (narrow : tests.length ≤ 64) :
    Computes arithmetic memory (placeVector tests) builder cells frame
      ((fun vector => .word (.ofNat vector)) <$> conditionVector memory.features tests) := by
  have zero : Computes arithmetic memory (compute (.word 0)) builder cells frame
      (.ok (.word 0)) := computes_compute ready rfl
  refine zero.bind_of_ok fun operand after ready _ found => ?_
  have vector := @computes_placeBits arithmetic memory _ cells after precise tests 0 operand 0 ready
    found (by decide) (by omega)
  simpa using vector

end Arbor.Evaluator
