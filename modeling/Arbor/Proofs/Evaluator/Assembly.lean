import Arbor.Proofs.Evaluator.Chain
import Arbor.Proofs.Evaluator.Straight

/-!
# Assembled code runs as the code does

Where blocks are left and entered, `Places` describes whole pieces of code: the function that is
written in the end gets from the block where they begin to the block where they end, and there it
has their result. Branches and switches are forks whose arms meet again, and keep their results in a
cell on the way there.

## Main definitions

* `Builder.Grows`, `Function.Holds`: the blocks that a builder writes, up to the function.
* `Leads`, `Places`: a builder adds blocks that have some result.
* `fork`: arms that meet again.

## Main statements

* `places_of_fork`: a fork does what the arm does that it chooses.
* `Code.places`: pieces of code, by induction on their structure.
* `Code.run_assemble`: the function of an evaluator returns what its code does.
* `emit_agrees`: emitted code takes the steps of the walk, whatever the selector is.
-/

namespace Arbor.Evaluator

open Builder

variable {arithmetic : Arithmetic} {memory : Memory} {builder : Builder}
  {cells : Nat → Option UInt64} {frame : Frame}

/-! ## Blocks -/

/-- The block that is being written has been created and not been left. -/
def Builder.Open (builder : Builder) : Prop := builder.blocks[builder.current]? = some none

/-- Blocks that are written stay as they are, and of those that are only created no others than
`touched` ones are written. -/
structure Builder.Grows (touched : Nat → Prop) (builder after : Builder) : Prop where
  size_le : builder.blocks.size ≤ after.blocks.size
  written : ∀ (i : Nat) (block : Block), builder.blocks[i]? = some (some block) →
    after.blocks[i]? = some (some block)
  pending : ∀ i : Nat, ¬touched i → builder.blocks[i]? = some none → after.blocks[i]? = some none

def Function.Holds (function : Function) (builder : Builder) : Prop :=
  ∀ (i : Nat) (block : Block), builder.blocks[i]? = some (some block) →
    function.blocks[i]? = some block

namespace Builder.Grows

variable {touched other : Nat → Prop} {after last : Builder} {function : Function}

theorem of_blocks_eq (same : after.blocks = builder.blocks) : builder.Grows touched after :=
  ⟨by rw [same], fun _ _ h => by rwa [same], fun _ _ h => by rwa [same]⟩

theorem trans (first : builder.Grows touched after) (second : after.Grows other last) :
    builder.Grows (fun i => touched i ∨ other i) last where
  size_le := first.size_le.trans second.size_le
  written i block h := second.written i block (first.written i block h)
  pending i h created := second.pending i (fun k => h (.inr k))
    (first.pending i (fun k => h (.inl k)) created)

theorem holds (grows : builder.Grows touched after) (holds : function.Holds after) :
    function.Holds builder :=
  fun i block h => holds i block (grows.written i block h)

/-- Only blocks that have been created before matter. -/
theorem mono (grows : builder.Grows touched after)
    (h : ∀ i < builder.blocks.size, touched i → other i) : builder.Grows other after where
  size_le := grows.size_le
  written := grows.written
  pending i untouched created := by
    have inside := (Array.getElem?_eq_some_iff.1 created).1
    exact grows.pending i (fun k => untouched (h i inside k)) created

end Builder.Grows

theorem grows_createBlocks (count : Nat) (builder : Builder) (touched : Nat → Prop) :
    builder.Grows touched (createBlocks count builder).2 := by
  have blocks : (createBlocks count builder).2.blocks =
      builder.blocks ++ Array.replicate count none := rfl
  have keeps : ∀ (i : Nat) (block : Option Block), builder.blocks[i]? = some block →
      (createBlocks count builder).2.blocks[i]? = some block := by
    intro i block h
    rw [blocks, Array.getElem?_append_left (Array.getElem?_eq_some_iff.1 h).1, h]
  exact ⟨by simp [blocks], fun i block h => keeps i _ h, fun i _ h => keeps i _ h⟩

theorem getElem?_createBlocks {count i : Nat} (low : builder.blocks.size ≤ i)
    (high : i < builder.blocks.size + count) :
    (createBlocks count builder).2.blocks[i]? = some none := by
  change (builder.blocks ++ Array.replicate count none)[i]? = _
  rw [Array.getElem?_append_right low, Array.getElem?_replicate, if_pos (by omega)]

theorem Builder.Open.getElem?_leave (isOpen : builder.Open) (exit : Exit) :
    (leave exit builder).2.blocks[builder.current]? = some (some ⟨builder.body.reverse, exit⟩) :=
  Array.getElem?_setIfInBounds_self_of_lt (Array.getElem?_eq_some_iff.1 isOpen).1

theorem Builder.Open.grows_leave (isOpen : builder.Open) (exit : Exit) :
    builder.Grows (· = builder.current) (leave exit builder).2 := by
  have blocks : (leave exit builder).2.blocks =
      builder.blocks.setIfInBounds builder.current (some ⟨builder.body.reverse, exit⟩) := rfl
  have others : ∀ i : Nat, i ≠ builder.current →
      (leave exit builder).2.blocks[i]? = builder.blocks[i]? := by
    intro i other
    rw [blocks, Array.getElem?_setIfInBounds_ne other.symm]
  refine ⟨by simp [blocks], fun i block h => ?_, fun i other h => (others i other).trans h⟩
  refine (others i ?_).trans h
  rintro rfl
  rw [isOpen] at h
  cases h

/-- What happens in a block that was left. -/
theorem Builder.Open.enter_eq {function : Function} (isOpen : builder.Open) {exit : Exit}
    (holds : function.Holds (leave exit builder).2) (fuel : Nat) :
    function.enter arithmetic memory (fuel + 1) builder.current cells =
      builder.outcome arithmetic memory cells >>= fun frame => exit.follow frame >>= fun
        | .inl target => function.enter arithmetic memory fuel target frame.cells
        | .inr bits => .ok bits := by
  rw [Function.enter, holds _ _ (isOpen.getElem?_leave exit)]
  rfl

/-! ## Pieces of code -/

variable (arithmetic memory) in
/-- Entering the block where a piece of code begins, the function gets to the block where it ends,
with its result as a value there. At most `cost` blocks are entered on the way. -/
def Leads (function : Function) (builder : Builder) (placed : Nat × Builder) (fuel cost : Nat)
    (cells : Nat → Option UInt64) : Except Fault Nat → Prop
  | .error fault => function.enter arithmetic memory fuel builder.current cells = .error fault
  | .ok node => ∃ left kept frame, fuel ≤ left + cost ∧
      function.enter arithmetic memory fuel builder.current cells =
        function.enter arithmetic memory left placed.2.current kept ∧
      placed.2.Ready arithmetic memory kept frame ∧
      frame.values[placed.1]? = some (.word (.ofNat node))

variable (arithmetic memory) in
/-- Entering the block of an arm, the function gets to the block where the arms meet, with the
result of the arm in a cell. -/
def Arrives (function : Function) (block meeting cell fuel cost : Nat)
    (cells : Nat → Option UInt64) : Except Fault Nat → Prop
  | .error fault => function.enter arithmetic memory fuel block cells = .error fault
  | .ok node => ∃ left kept, fuel ≤ left + cost + 1 ∧
      function.enter arithmetic memory fuel block cells =
        function.enter arithmetic memory left meeting kept ∧ kept cell = some (.ofNat node)

variable (arithmetic memory) in
/-- The action writes a piece of code with this result. It begins in the current block and ends
there or in a new one, and every function with the blocks that it writes follows it. -/
structure Places (place : BuilderM Nat) (result : Except Fault Nat) : Prop where
  isOpen : ∀ {builder : Builder}, builder.Open → (place builder).2.Open
  grows : ∀ {builder : Builder}, builder.Open →
    builder.Grows (· = builder.current) (place builder).2
  current : ∀ {builder : Builder}, builder.Open → (place builder).2.current = builder.current ∨
    builder.blocks.size ≤ (place builder).2.current
  leads : ∀ {builder : Builder} {function : Function} {cells : Nat → Option UInt64} {frame : Frame}
    {fuel cost : Nat}, builder.Open → builder.Ready arithmetic memory cells frame →
    function.Holds (place builder).2 →
    (place builder).2.blocks.size ≤ builder.blocks.size + cost → cost < fuel →
    Leads arithmetic memory function builder (place builder) fuel cost cells result

/-- A block begins without instructions. -/
theorem ready_switchTo (block : Nat) (cells : Nat → Option UInt64) (builder : Builder) :
    (switchTo block builder).2.Ready arithmetic memory cells ⟨#[.word memory.base], cells⟩ :=
  ⟨rfl, rfl, rfl⟩

theorem outcome_keep (cell operand : Nat) :
    (keep cell operand builder).2.outcome arithmetic memory cells =
      builder.outcome arithmetic memory cells >>= fun frame =>
        (Instruction.keep cell operand).step arithmetic memory frame :=
  @outcome_compute arithmetic memory builder cells (.keep cell operand)

variable {place : BuilderM Nat} {result : Except Fault Nat} {cell meeting block : Nat}

theorem Places.grows_arm (places : Places arithmetic memory place result)
    (pending : builder.blocks[block]? = some none) :
    builder.Grows (· = block) (placeArm cell meeting block place builder).2 := by
  have isOpen : (switchTo block builder).2.Open := pending
  have begun : builder.Grows (· = block) (switchTo block builder).2 := .of_blocks_eq rfl
  have placed : (keep cell (place (switchTo block builder).2).1
      (place (switchTo block builder).2).2).2.Open := places.isOpen isOpen
  have kept : (place (switchTo block builder).2).2.Grows (· = block)
      (keep cell (place (switchTo block builder).2).1 (place (switchTo block builder).2).2).2 :=
    .of_blocks_eq rfl
  refine (((begun.trans (places.grows isOpen)).trans kept).trans
    (placed.grows_leave (.jump meeting))).mono ?_
  rintro i inside (((rfl | rfl) | rfl) | rfl)
  · rfl
  · rfl
  · rfl
  -- The block that is left in the end is that of the arm, unless the arm has created it.
  · exact (places.current isOpen).resolve_right (Nat.not_le_of_lt inside)

theorem Places.arrives (places : Places arithmetic memory place result)
    (pending : builder.blocks[block]? = some none) {function : Function} {fuel cost : Nat}
    (holds : function.Holds (placeArm cell meeting block place builder).2)
    (size : (placeArm cell meeting block place builder).2.blocks.size ≤
      builder.blocks.size + cost) (enough : cost < fuel) :
    Arrives arithmetic memory function block meeting cell fuel cost cells result := by
  have isOpen : (switchTo block builder).2.Open := pending
  have placed : (keep cell (place (switchTo block builder).2).1
      (place (switchTo block builder).2).2).2.Open := places.isOpen isOpen
  have grows := placed.grows_leave (.jump meeting)
  have leads := places.leads isOpen (ready_switchTo block cells builder) (grows.holds holds)
    (grows.size_le.trans size) enough
  cases result with
  | error fault => exact leads
  | ok node =>
    obtain ⟨left, kept, frame, spent, entered, ready, found⟩ := leads
    obtain ⟨less, rfl⟩ : ∃ less, left = less + 1 := ⟨left - 1, by omega⟩
    have outcome := @outcome_keep arithmetic memory (place (switchTo block builder).2).2 kept cell
      (place (switchTo block builder).2).1
    rw [ready.outcome_eq, ok_bind, Instruction.step, Frame.word_eq found] at outcome
    refine ⟨less, (frame.keep cell (.ofNat node)).cells, by omega, entered.trans ?_, if_pos rfl⟩
    refine (placed.enter_eq holds less).trans ?_
    rw [outcome]
    rfl

/-! ## Arms that meet again -/

def placeAll (cell meeting : Nat) : (arms : List (BuilderM Nat)) → (block : Nat) → BuilderM Unit
  | [], _ => pure ()
  | place :: rest, block => do
    placeArm cell meeting block place
    placeAll cell meeting rest (block + 1)

theorem placeArms_eq (arms : List Code) (block : Nat) :
    Code.placeArms cell meeting arms block = placeAll cell meeting (arms.map Code.place) block := by
  induction arms generalizing block with
  | nil => rfl
  | cons code rest ih =>
    rw [Code.placeArms, ih]
    rfl

variable {arms : List (BuilderM Nat)} {results : List (Except Fault Nat)}

theorem grows_placeAll (places : List.Forall₂ (Places arithmetic memory) arms results)
    (pending : ∀ j < arms.length, builder.blocks[block + j]? = some none) :
    builder.Grows (fun i => block ≤ i ∧ i < block + arms.length)
      (placeAll cell meeting arms block builder).2 := by
  induction places generalizing builder block with
  | nil => exact .of_blocks_eq rfl
  | @cons place result arms results first _ ih =>
    have grows := @Places.grows_arm _ _ builder _ _ cell meeting block first (pending 0 (by simp))
    have rest := @ih _ (block + 1) fun j less => grows.pending _ (by omega) (by
      rw [Nat.add_right_comm, Nat.add_assoc]
      exact pending (j + 1) (by simpa using less))
    refine (grows.trans rest).mono ?_
    simp only [List.length_cons]
    omega

/-- Every arm arrives where the arms meet. -/
theorem arrives_placeAll (places : List.Forall₂ (Places arithmetic memory) arms results)
    (pending : ∀ j < arms.length, builder.blocks[block + j]? = some none) {function : Function}
    {fuel cost : Nat} (holds : function.Holds (placeAll cell meeting arms block builder).2)
    (size : (placeAll cell meeting arms block builder).2.blocks.size ≤ builder.blocks.size + cost)
    (enough : cost < fuel) {j : Nat} (found : results[j]? = some result) :
    Arrives arithmetic memory function (block + j) meeting cell fuel cost cells result := by
  induction places generalizing builder block j with
  | nil => simp at found
  | @cons place other arms results first rest ih =>
    have grows := @Places.grows_arm _ _ builder _ _ cell meeting block first (pending 0 (by simp))
    have later : ∀ j < arms.length,
        (placeArm cell meeting block place builder).2.blocks[block + 1 + j]? = some none :=
      fun j less => grows.pending _ (by omega) (by
        rw [Nat.add_right_comm, Nat.add_assoc]
        exact pending (j + 1) (by simpa using less))
    have others := @grows_placeAll _ _ _ cell meeting _ _ _ rest later
    cases j with
    | zero =>
      obtain rfl := Option.some.inj found
      exact first.arrives (pending 0 (by simp)) (others.holds holds) (others.size_le.trans size)
        enough
    | succ j =>
      rw [← Nat.add_assoc, Nat.add_right_comm]
      exact ih later holds (size.trans (Nat.add_le_add_right grows.size_le cost)) found

def fork (exit : Exit) (cell meeting block : Nat) (arms : List (BuilderM Nat)) : BuilderM Nat := do
  leave exit
  placeAll cell meeting arms block
  switchTo meeting
  compute (.reload cell)

/-- The blocks of the arms and the one where they meet have been created, and the current block is
none of them. -/
structure Builder.Forks (builder : Builder) (meeting block count : Nat) : Prop where
  isOpen : builder.Open
  arms : ∀ j < count, builder.blocks[block + j]? = some none
  meets : builder.blocks[meeting]? = some none
  before : builder.current < block ∧ builder.current < meeting
  apart : meeting < block ∨ block + count ≤ meeting

namespace Builder.Forks

variable {exit : Exit} (forks : builder.Forks meeting block arms.length)

include forks

variable (exit) in
theorem pending : ∀ j < arms.length, (leave exit builder).2.blocks[block + j]? = some none :=
  fun j less => (forks.isOpen.grows_leave exit).pending _ (by have := forks.before; omega)
    (forks.arms j less)

variable (places : List.Forall₂ (Places arithmetic memory) arms results)

include places

theorem grows_placeAll : builder.Grows
    (fun i => i = builder.current ∨ block ≤ i ∧ i < block + arms.length)
    (placeAll cell meeting arms block (leave exit builder).2).2 :=
  (forks.isOpen.grows_leave exit).trans (Evaluator.grows_placeAll places (forks.pending exit))

theorem isOpen_fork : (fork exit cell meeting block arms builder).2.Open := by
  have := forks.before
  have := forks.apart
  exact (forks.grows_placeAll places).pending meeting (by omega) forks.meets

theorem grows_fork : builder.Grows
    (fun i => i = builder.current ∨ block ≤ i ∧ i < block + arms.length)
    (fork exit cell meeting block arms builder).2 := by
  have last : (placeAll cell meeting arms block (leave exit builder).2).2.Grows (fun _ => False)
      (fork exit cell meeting block arms builder).2 := .of_blocks_eq rfl
  exact ((forks.grows_placeAll places).trans last).mono fun i _ h => h.resolve_right id

variable {function : Function} {fuel cost : Nat}
  (holds : function.Holds (fork exit cell meeting block arms builder).2)

include holds

theorem holds_leave : function.Holds (leave exit builder).2 :=
  (Evaluator.grows_placeAll places (forks.pending exit)).holds holds

theorem enter_of_error (enough : 0 < fuel) {fault : Fault}
    (failed : builder.outcome arithmetic memory cells = .error fault) :
    function.enter arithmetic memory fuel builder.current cells = .error fault := by
  obtain ⟨less, rfl⟩ : ∃ less, fuel = less + 1 := ⟨fuel - 1, by omega⟩
  rw [forks.isOpen.enter_eq (forks.holds_leave places holds), failed]
  rfl

/-- The arm that the exit chooses leads on. -/
theorem leads (ready : builder.Ready arithmetic memory cells frame)
    (size : (fork exit cell meeting block arms builder).2.blocks.size ≤ builder.blocks.size + cost)
    (enough : cost + 1 < fuel) {j : Nat} (chosen : exit.follow frame = .ok (.inl (block + j)))
    (found : results[j]? = some result) :
    Leads arithmetic memory function builder (fork exit cell meeting block arms builder) fuel
      (cost + 2) cells result := by
  obtain ⟨less, rfl⟩ : ∃ less, fuel = less + 1 := ⟨fuel - 1, by omega⟩
  have entered : function.enter arithmetic memory (less + 1) builder.current cells =
      function.enter arithmetic memory less (block + j) frame.cells := by
    rw [forks.isOpen.enter_eq (forks.holds_leave places holds), ready.outcome_eq, ok_bind, chosen]
    rfl
  have same : (leave exit builder).2.blocks.size = builder.blocks.size := Array.size_setIfInBounds
  have arrives : Arrives arithmetic memory function (block + j) meeting cell less cost frame.cells
      result := arrives_placeAll places (forks.pending exit) holds (same ▸ size) (by omega) found
  cases result with
  | error fault => exact entered.trans arrives
  | ok node =>
    obtain ⟨left, kept, spent, arrived, recalled⟩ := arrives
    -- Values do not outlive their block, so the result comes out of the cell.
    have begun := @ready_switchTo arithmetic memory meeting kept
      (placeAll cell meeting arms block (leave exit builder).2).2
    have reload : Computes arithmetic memory (compute (.reload cell)) _ kept _
        (.ok (.word (.ofNat node))) := computes_compute begun (by
      rw [Instruction.step, Frame.cell]
      simp only [recalled]
      rfl)
    obtain ⟨after, ready, -, there⟩ := reload
    exact ⟨left, kept, after, by omega, entered.trans arrived, ready, there⟩

end Builder.Forks

structure Builder.Prepares (builder prepared : Builder) (meeting block count : Nat) : Prop where
  blocks_eq : prepared.blocks = builder.blocks ++ Array.replicate (count + 1) none
  current_eq : prepared.current = builder.current
  numbers : meeting = builder.blocks.size ∧ block = builder.blocks.size + 1 ∨
    meeting = builder.blocks.size + count ∧ block = builder.blocks.size

namespace Builder.Prepares

variable {prepared : Builder} {count : Nat}
  (prepares : builder.Prepares prepared meeting block count)

include prepares

theorem grows : builder.Grows (fun _ => False) prepared := by
  have created := grows_createBlocks (count + 1) builder fun _ => False
  have same : (createBlocks (count + 1) builder).2.blocks = prepared.blocks :=
    prepares.blocks_eq.symm
  exact (created.trans (.of_blocks_eq same.symm)).mono fun _ _ h => h.elim id id

theorem pending {i : Nat} (low : builder.blocks.size ≤ i)
    (high : i < builder.blocks.size + (count + 1)) : prepared.blocks[i]? = some none := by
  rw [prepares.blocks_eq]
  exact getElem?_createBlocks low high

theorem forks (isOpen : builder.Open) : prepared.Forks meeting block count := by
  have inside := (Array.getElem?_eq_some_iff.1 isOpen).1
  have numbers := prepares.numbers
  refine ⟨?_, fun j less => prepares.pending (by omega) (by omega),
    prepares.pending (by omega) (by omega), ?_, by omega⟩
  · rw [Builder.Open, prepares.current_eq]
    exact prepares.grows.pending _ id isOpen
  · rw [prepares.current_eq]
    omega

end Builder.Prepares

variable (arithmetic memory) in
/-- A block ends with the fault that is the result, or it is left for the arm that has it. -/
def Chooses (prepared : Builder) (cells : Nat → Option UInt64) (exit : Exit) (block : Nat)
    (results : List (Except Fault Nat)) (result : Except Fault Nat) : Prop :=
  (∃ fault, prepared.outcome arithmetic memory cells = .error fault ∧ result = .error fault) ∨
    ∃ (frame : Frame) (j : Nat), prepared.Ready arithmetic memory cells frame ∧
      exit.follow frame = .ok (.inl (block + j)) ∧ results[j]? = some result

theorem Leads.mono {function : Function} {placed : Nat × Builder} {fuel cost more : Nat}
    (leads : Leads arithmetic memory function builder placed fuel cost cells result)
    (le : cost ≤ more) :
    Leads arithmetic memory function builder placed fuel more cells result := by
  cases result with
  | error fault => exact leads
  | ok node =>
    obtain ⟨left, kept, frame, spent, rest⟩ := leads
    exact ⟨left, kept, frame, by omega, rest⟩

/-- Arms are pieces of code if the block before them chooses the right one. -/
theorem places_of_fork (places : List.Forall₂ (Places arithmetic memory) arms results)
    (h : ∀ builder : Builder, ∃ prepared exit cell meeting block,
      place builder = fork exit cell meeting block arms prepared ∧
      builder.Prepares prepared meeting block arms.length ∧
      ∀ cells frame, builder.Ready arithmetic memory cells frame →
        Chooses arithmetic memory prepared cells exit block results result) :
    Places arithmetic memory place result where
  isOpen {builder} isOpen := by
    obtain ⟨prepared, exit, cell, meeting, block, same, prepares, -⟩ := h builder
    rw [same]
    exact (prepares.forks isOpen).isOpen_fork places
  grows {builder} isOpen := by
    obtain ⟨prepared, exit, cell, meeting, block, same, prepares, -⟩ := h builder
    have numbers := prepares.numbers
    rw [same]
    refine (prepares.grows.trans ((prepares.forks isOpen).grows_fork places)).mono ?_
    rintro i inside (never | own | ⟨low, -⟩)
    · exact never.elim
    · exact own.trans prepares.current_eq
    · omega
  current {builder} isOpen := by
    obtain ⟨prepared, exit, cell, meeting, block, same, prepares, -⟩ := h builder
    have numbers := prepares.numbers
    rw [same]
    exact .inr (show builder.blocks.size ≤ meeting by omega)
  leads {builder function cells frame fuel cost} isOpen ready holds size enough := by
    obtain ⟨prepared, exit, cell, meeting, block, same, prepares, chooses⟩ := h builder
    have forks := prepares.forks isOpen
    rw [same] at holds size ⊢
    suffices Leads arithmetic memory function prepared _ fuel cost cells result by
      rw [Leads.eq_def, prepares.current_eq] at this
      rwa [Leads.eq_def]
    obtain ⟨fault, failed, rfl⟩ | ⟨frame, j, ready, chosen, found⟩ := chooses cells frame ready
    · exact forks.enter_of_error places holds (by omega) failed
    · have count : prepared.blocks.size = builder.blocks.size + (arms.length + 1) := by
        simp [prepares.blocks_eq]
      have grown := (@Forks.grows_fork _ _ _ cell _ _ _ _ exit forks places).size_le
      have one : j < results.length := (List.getElem?_eq_some_iff.1 found).1
      rw [← places.length_eq] at one
      -- One of the new blocks is entered for the arm and one where the arms meet, and there are
      -- at least two, as there is an arm.
      obtain ⟨inner, rfl⟩ : ∃ inner, cost = inner + (arms.length + 1) :=
        ⟨cost - (arms.length + 1), by omega⟩
      have fits : (fork exit cell meeting block arms prepared).2.blocks.size ≤
          prepared.blocks.size + inner := by omega
      exact (forks.leads places holds ready fits (by omega) chosen found).mono (by omega)

/-! ## All code -/

theorem places_goto (next : Nat) : Places arithmetic memory (Code.goto next).place (.ok next) where
  isOpen isOpen := isOpen
  grows _ := .of_blocks_eq rfl
  current _ := .inl rfl
  leads _ ready _ _ _ := by
    obtain ⟨after, ready, -, found⟩ := @computes_compute arithmetic memory _ _ _ ready
      (.word (.ofNat next)) (.ok (.word (.ofNat next))) rfl
    exact ⟨_, _, after, Nat.le_add_right _ _, rfl, ready, found⟩

theorem Straight.blocks_eq {action : BuilderM Nat} (straight : Straight action) :
    (action builder).2.blocks = builder.blocks ∧ (action builder).2.current = builder.current := by
  obtain ⟨added, values, same⟩ := straight builder
  rw [same]
  exact ⟨rfl, rfl⟩

def Builder.forBranch (tested : Builder) : Builder :=
  (takeCell (createBlocks 1 (createBlocks 2 tested).2).2).2

theorem place_branch (test : Node) (onTrue onFalse : Code) (builder : Builder) :
    (Code.branch test onTrue onFalse).place builder =
      fork (.branch (placeTest test builder).1 (placeTest test builder).2.blocks.size
          ((placeTest test builder).2.blocks.size + 1))
        (placeTest test builder).2.cells (createBlocks 2 (placeTest test builder).2).2.blocks.size
        (placeTest test builder).2.blocks.size [onTrue.place, onFalse.place]
        (placeTest test builder).2.forBranch := by
  rw [Code.place]
  rfl

/-- A frame does not depend on the blocks. -/
theorem Builder.Ready.of_body_eq {other : Builder}
    (ready : builder.Ready arithmetic memory cells frame) (body : other.body = builder.body)
    (values : other.values = builder.values) : other.Ready arithmetic memory cells frame :=
  ⟨by rw [outcome, body]; exact ready.outcome_eq, by rw [values, ready.size_eq], ready.base_eq⟩

theorem places_branch (precise : arithmetic.Exact) (test : Node) {onTrue onFalse : Code}
    {first second : Except Fault Nat} (isTrue : Places arithmetic memory onTrue.place first)
    (isFalse : Places arithmetic memory onFalse.place second) :
    Places arithmetic memory (Code.branch test onTrue onFalse).place
      (test.evaluate memory.features >>= fun outcome => if outcome then first else second) := by
  refine places_of_fork (.cons isTrue (.cons isFalse .nil)) fun builder => ?_
  obtain ⟨blocks, current⟩ := @Straight.blocks_eq builder _ (straight_placeTest test)
  refine ⟨_, _, _, _, _, place_branch test onTrue onFalse builder, ⟨?_, current, ?_⟩, ?_⟩
  · change (placeTest test builder).2.blocks ++ Array.replicate 2 none ++ Array.replicate 1 none = _
    rw [blocks, Array.append_assoc, Array.replicate_append_replicate]
    rfl
  · right
    change ((placeTest test builder).2.blocks ++ Array.replicate 2 none).size = _ ∧ _
    simp [blocks]
  · intro cells frame ready
    have computes := computes_placeTest precise ready test
    cases evaluated : test.evaluate memory.features with
    | error fault =>
      rw [evaluated] at computes
      exact .inl ⟨fault, computes, rfl⟩
    | ok outcome =>
      rw [evaluated] at computes
      obtain ⟨after, tested, -, found⟩ := computes
      refine .inr ⟨after, if outcome then 0 else 1, tested.of_body_eq rfl rfl, ?_, ?_⟩
      · rw [Exit.follow, Frame.byte_eq found]
        cases outcome <;> rfl
      · cases outcome <;> rfl

def Builder.forSwitch (tested : Builder) (count : Nat) : Builder :=
  (createBlocks count (takeCell (createBlocks 1 tested).2).2).2

def targetsOf (table : Array Nat) (count meeting block : Nat) : Array Nat :=
  table.map fun arm => if arm < count then block + arm else meeting

theorem place_switch (tests : List Node) (table : Array Nat) (arms : List Code)
    (builder : Builder) :
    (Code.switch tests table arms).place builder =
      fork (.switch (placeVector tests builder).1
          (targetsOf table arms.length (placeVector tests builder).2.blocks.size
            (createBlocks 1 (placeVector tests builder).2).2.blocks.size)
          (placeVector tests builder).2.blocks.size)
        (placeVector tests builder).2.cells (placeVector tests builder).2.blocks.size
        (createBlocks 1 (placeVector tests builder).2).2.blocks.size (arms.map Code.place)
        ((placeVector tests builder).2.forSwitch arms.length) := by
  rw [Code.place, fork, ← placeArms_eq]
  rfl

theorem conditionVector_lt {features : Array Float32} {tests : List Node} {vector : Nat}
    (h : conditionVector features tests = .ok vector) : vector < 2 ^ tests.length := by
  induction tests generalizing vector with
  | nil =>
    obtain rfl := Except.ok.inj h
    exact Nat.one_pos
  | cons test rest ih =>
    obtain ⟨outcome, -, h⟩ := bind_eq_ok.1 h
    obtain ⟨others, read, h⟩ := bind_eq_ok.1 h
    obtain rfl := Except.ok.inj h
    have := ih read
    have := outcome.toNat_le
    rw [List.length_cons, Nat.pow_succ]
    omega

theorem places_switch (precise : arithmetic.Exact) {tests : List Node} {table : Array Nat}
    {arms : List Code} (narrow : tests.length ≤ 64)
    (total : ∀ vector < 2 ^ tests.length, ∃ arm < arms.length, table[vector]? = some arm)
    (places : ∀ code ∈ arms, Places arithmetic memory code.place (code.run memory.features)) :
    Places arithmetic memory (Code.switch tests table arms).place
      ((Code.switch tests table arms).run memory.features) := by
  have each : List.Forall₂ (Places arithmetic memory) (arms.map Code.place)
      (arms.map (Code.run memory.features)) := by
    rw [List.forall₂_map_left_iff, List.forall₂_map_right_iff, List.forall₂_same]
    exact places
  refine places_of_fork each fun builder => ?_
  obtain ⟨blocks, current⟩ := @Straight.blocks_eq builder _ (straight_placeVector tests)
  refine ⟨_, _, _, _, _, place_switch tests table arms builder, ⟨?_, current, ?_⟩, ?_⟩
  · change (placeVector tests builder).2.blocks ++ Array.replicate 1 none ++
      Array.replicate arms.length none = _
    rw [blocks, Array.append_assoc, Array.replicate_append_replicate, List.length_map,
      Nat.add_comm]
  · left
    change _ ∧ ((placeVector tests builder).2.blocks ++ Array.replicate 1 none).size = _
    simp [blocks]
  · intro cells frame ready
    have computes := computes_placeVector precise ready narrow
    cases read : conditionVector memory.features tests with
    | error fault =>
      rw [read] at computes
      exact .inl ⟨fault, computes, by simp [Code.run, read]⟩
    | ok vector =>
      rw [read] at computes
      obtain ⟨after, tested, -, found⟩ := computes
      have less := conditionVector_lt read
      obtain ⟨arm, inside, labelled⟩ := total vector less
      have word : (UInt64.ofNat vector).toNat = vector := by
        rw [UInt64.toNat_ofNat', Nat.mod_eq_of_lt]
        exact less.trans_le (Nat.pow_le_pow_right Nat.two_pos narrow)
      refine .inr ⟨after, arm, tested.of_body_eq rfl rfl, ?_, ?_⟩
      · rw [Exit.follow, Frame.word_eq found]
        simp [targetsOf, word, labelled, inside]
      · have chosen : arms[arm]? = some arms[arm] := List.getElem?_eq_getElem inside
        simp only [List.getElem?_map, chosen, Option.map_some, Code.run, read, ok_bind, labelled,
          Option.getD_some, runArm_eq chosen]

mutual

/-- Every piece of code that is total and narrow is placed with the result that it has. -/
theorem Code.places (precise : arithmetic.Exact) : (code : Code) → code.Total → code.Narrow →
    Places arithmetic memory code.place (code.run memory.features)
  | .goto next, _, _ => places_goto next
  | .branch test onTrue onFalse, total, narrow => by
    rw [Code.run]
    exact places_branch precise test (Code.places precise onTrue total.1 narrow.1)
      (Code.places precise onFalse total.2 narrow.2)
  | .switch tests table arms, total, narrow =>
    places_switch precise narrow.1 total.1 (Code.places_arms precise arms total.2 narrow.2)

theorem Code.places_arms (precise : arithmetic.Exact) : (arms : List Code) →
    Code.TotalArms arms → Code.NarrowArms arms →
    ∀ code ∈ arms, Places arithmetic memory code.place (code.run memory.features)
  | [], _, _ => by simp
  | code :: rest, total, narrow => by
    rw [List.forall_mem_cons]
    exact ⟨Code.places precise code total.1 narrow.1,
      Code.places_arms precise rest total.2 narrow.2⟩

end

def Builder.begun : Builder := { blocks := #[none] }

theorem assemble_blocks (code : Code) : code.assemble.blocks =
    (leave (.finish (code.place .begun).1) (code.place .begun).2).2.blocks.map (·.getD default) :=
  rfl

theorem holds_assemble (code : Code) :
    code.assemble.Holds (leave (.finish (code.place .begun).1) (code.place .begun).2).2 := by
  intro i block written
  rw [assemble_blocks, Array.getElem?_map, written]
  rfl

/-- The function of an evaluator returns what its code does. -/
theorem Code.run_assemble (precise : arithmetic.Exact) {code : Code} (total : code.Total)
    (narrow : code.Narrow) (memory : Memory) :
    code.assemble.run arithmetic memory = UInt64.ofNat <$> code.run memory.features := by
  have places := @Code.places arithmetic memory precise code total narrow
  have isOpen : Builder.begun.Open := rfl
  have placed := places.isOpen isOpen
  have holds := holds_assemble code
  have grows := placed.grows_leave (.finish (code.place .begun).1)
  have size : code.assemble.blocks.size = (code.place .begun).2.blocks.size := by
    rw [assemble_blocks, Array.size_map]
    exact Array.size_setIfInBounds
  -- The first block is there from the beginning, so the number of blocks is enough fuel.
  have grown : 1 ≤ (code.place .begun).2.blocks.size := (places.grows isOpen).size_le
  have enough : (code.place .begun).2.blocks.size ≤ 1 + (code.assemble.blocks.size - 1) := by omega
  have leads := @places.leads .begun code.assemble (fun _ => none) _ code.assemble.blocks.size _
    isOpen ⟨rfl, rfl, rfl⟩ (grows.holds holds) enough (by omega)
  cases run : code.run memory.features with
  | error fault =>
    rw [run] at leads
    exact leads
  | ok node =>
    rw [run] at leads
    obtain ⟨left, kept, frame, spent, entered, ready, found⟩ := leads
    obtain ⟨less, rfl⟩ : ∃ less, left = less + 1 := ⟨left - 1, by omega⟩
    refine entered.trans ((placed.enter_eq holds less).trans ?_)
    rw [ready.outcome_eq, ok_bind, Exit.follow, Frame.word_eq found]
    rfl

/-- The function of emitted code returns the node that the walk reaches, as a word. -/
theorem Emits.run_assemble (precise : arithmetic.Exact) {tree : Tree} {selector : Selector}
    {symbol : String} {remaining root : Nat} {code : Code}
    (h : Emits tree selector symbol remaining root code)
    (deep : Index.levelOf root + remaining ≤ tree.depth)
    (long : tree.requiredFeatures ≤ memory.features.size) :
    ∃ node : UInt64, code.assemble.run arithmetic memory = .ok node ∧
      node.toNat = Index.descend (tree.outcome memory.features) remaining root := by
  have level :
      Index.levelOf (Index.descend (tree.outcome memory.features) remaining root) < 64 := by
    have depth := tree.depth_le
    simp only [maxTreeDepth] at depth
    rw [Index.levelOf_descend]
    omega
  have fits := Index.levelOf_lt_iff.1 level
  refine ⟨.ofNat (Index.descend (tree.outcome memory.features) remaining root), ?_, ?_⟩
  · rw [Code.run_assemble precise (h.total deep) (h.narrow deep), h.run_eq long deep]
    rfl
  · rw [UInt64.toNat_ofNat', Nat.mod_eq_of_lt]
    omega

/-- Code that is emitted for some levels below a node, whether functions begin there or not, is
assembled to a function that returns the node that as many steps lead to, wherever the features
stand in memory. So it does not matter which selector emitted it. -/
theorem emit_agrees {arithmetic : Arithmetic} (precise : arithmetic.Exact) {tree : Tree}
    {selector : Selector} {symbol : String} {levels root : Nat} {code : Code}
    (emitted : emit tree selector symbol levels root = .ok code)
    (deep : Index.levelOf root + levels ≤ tree.depth) {memory : Memory}
    (long : tree.requiredFeatures ≤ memory.features.size) :
    ∃ node : UInt64, code.assemble.run arithmetic memory = .ok node ∧
      code.run memory.features = .ok node.toNat ∧
      (∃ visited, visited.length = levels ∧
        tree.Walks memory.features root visited node.toNat) ∧
      (∀ index next, tree.step memory.features index = .ok next ↔ ∃ test outcome,
        tree.nodes[index]? = some test ∧ test.evaluate memory.features = .ok outcome ∧
          next = if outcome then 2 * index + 2 else 2 * index + 1) ∧
      ∀ (other : Selector) otherSymbol otherCode,
        emit tree other otherSymbol levels root = .ok otherCode →
          otherCode.assemble.run arithmetic memory = .ok node ∧
            otherCode.run memory.features = .ok node.toNat := by
  have agrees {other : Selector} {otherSymbol : String} {otherCode : Code}
      (made : emit tree other otherSymbol levels root = .ok otherCode) :
      ∃ node : UInt64, node.toNat = Index.descend (tree.outcome memory.features) levels root ∧
        otherCode.assemble.run arithmetic memory = .ok node ∧
        otherCode.run memory.features = .ok node.toNat := by
    obtain ⟨node, returned, reached⟩ := (Emits.of_emit made).run_assemble precise deep long
    exact ⟨node, reached, returned, reached ▸ (Emits.of_emit made).run_eq long deep⟩
  obtain ⟨node, reached, returned, ran⟩ := agrees emitted
  refine ⟨node, returned, ran, ⟨_, by simp, reached ▸ tree.walks_descend long levels root deep⟩,
    fun _ _ => tree.step_eq_ok, fun other otherSymbol otherCode made => ?_⟩
  obtain ⟨same, alsoReached, result⟩ := agrees made
  obtain rfl : same = node := UInt64.toNat_inj.1 (alsoReached.trans reached.symm)
  exact result

/-- A tree of three levels. One node reads a feature two gigabytes behind the first one. -/
def distantTree : Tree where
  nodes := #[⟨0, .bypass, .lessThan, 0.5⟩,
    ⟨1, .sqrt, .greaterThan, 0.25⟩, ⟨.ofNat 0x20000000, .ln, .lessThan, -1.0⟩,
    ⟨0, .ln, .greaterThan, 0.0⟩, ⟨1, .bypass, .lessThan, 2.5⟩,
    ⟨1, .sqrt, .lessThan, 1.5⟩, ⟨0, .bypass, .greaterThan, -0.0⟩]
  depth := 3
  size_eq := rfl
  depth_pos := by decide
  depth_le := by decide

def distantMemory : Memory := ⟨0x1000, Array.replicate 0x20000001 0.25⟩

/-- Below the right child of the root, a switch of one level and then branches do what one switch of
two levels does. -/
theorem emit_agrees_below : ∃ mixed whole node,
    emit distantTree (.ofEntries #[.ifThenElse, .subtreeSwitch 1]) "mixed" 2 2 = .ok mixed ∧
    emit distantTree (.uniform 2) "whole" 2 2 = .ok whole ∧
    mixed.assemble.run .ofNodes distantMemory = .ok node ∧
    whole.assemble.run .ofNodes distantMemory = .ok node := by
  have deep : Index.levelOf 2 + 2 ≤ distantTree.depth := by decide
  have long : distantTree.requiredFeatures ≤ distantMemory.features.size := by
    rw [distantMemory, Array.size_replicate]
    decide
  obtain ⟨mixed, hmixed⟩ := @emit_of_exhausts distantTree
    (.ofEntries #[.ifThenElse, .subtreeSwitch 1]) 2 2 "mixed"
    (.step (by decide) (.step (by decide) .done)) (by decide) deep
  obtain ⟨whole, hwhole⟩ := @emit_of_exhausts distantTree (.uniform 2) 2 2 "whole"
    (.step (by decide) .done) (by decide) deep
  obtain ⟨node, returned, -, -, -, others⟩ := emit_agrees Arithmetic.exact_ofNodes hmixed deep long
  exact ⟨mixed, whole, node, hmixed, hwhole, returned, (others _ _ _ hwhole).1⟩

end Arbor.Evaluator
