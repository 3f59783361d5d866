import Arbor.Evaluator.Engine
import Arbor.Proofs.Evaluator.Text

/-!
# What is expected of a backend

A backend may refuse what it is given, may write and read functions in a format of its own, and does
the arithmetic. The three are independent, and so are the conditions under which builds rely on
them. `Arithmetic.Exact` is the condition on the arithmetic.

## Main definitions

* `Backend.AcceptsEmitted`: evaluators that were emitted are not refused.
* `Backend.AcceptsRead`: functions that were read are not refused.
* `Backend.Legible`: evaluators that were written are read back.

## Main statements

* `Backend.AcceptsEmitted.acceptsRead`: what is read is not refused if only evaluators can be read.
* `Backend.acceptsEmitted_standard`, `Backend.acceptsRead_standard`, `Backend.legible_standard`: the
  machine of this library is as expected.
-/

namespace Arbor.Evaluator

def Code.Emitted (code : Code) : Prop :=
  ∃ tree selector symbol levels root, emit tree selector symbol levels root = .ok code

namespace Backend

variable (backend : Backend)

structure Compiles (functions : List Function) : Prop where
  compile_eq : ∀ function ∈ functions, backend.compile function = none
  finalize_eq : backend.finalize functions = none

structure AcceptsEmitted : Prop where
  refusal_eq : backend.refusal = none
  verify_eq : ∀ code : Code, code.Emitted → backend.verify code.assemble = none
  compiles : ∀ codes : List Code, (∀ code ∈ codes, code.Emitted) →
    backend.Compiles (codes.map Code.assemble)

def AcceptsRead : Prop :=
  ∀ functions : List Function,
    (∀ function ∈ functions, ∃ text, backend.read text = some [function]) →
      backend.Compiles functions

/-- The text of an evaluator holds one function that returns what the evaluator does. It need not be
the same function. -/
def Legible : Prop :=
  ∀ code : Code, code.Emitted → ∃ function,
    backend.read (backend.write code.assemble) = some [function] ∧
    function.run backend.arithmetic = code.assemble.run backend.arithmetic

variable {backend}

/-- A backend that reads nothing but evaluators refuses nothing that it reads. -/
theorem AcceptsEmitted.acceptsRead (accepts : backend.AcceptsEmitted)
    (only : ∀ text function, backend.read text = some [function] →
      ∃ code : Code, code.Emitted ∧ function = code.assemble) : backend.AcceptsRead := by
  intro functions read
  have codes : ∃ codes : List Code, (∀ code ∈ codes, code.Emitted) ∧
      functions = codes.map Code.assemble := by
    induction functions with
    | nil => exact ⟨[], by simp, rfl⟩
    | cons function rest ih =>
      obtain ⟨text, found⟩ := read function List.mem_cons_self
      obtain ⟨code, emitted, rfl⟩ := only text function found
      obtain ⟨codes, others, rfl⟩ := ih fun other member => read other (by simp [member])
      exact ⟨code :: codes, List.forall_mem_cons.2 ⟨emitted, others⟩, rfl⟩
  obtain ⟨codes, emitted, rfl⟩ := codes
  exact accepts.compiles codes emitted

theorem acceptsEmitted_standard : standard.AcceptsEmitted :=
  ⟨rfl, fun _ _ => rfl, fun _ _ => ⟨fun _ _ => rfl, rfl⟩⟩

theorem acceptsRead_standard : standard.AcceptsRead := fun _ _ => ⟨fun _ _ => rfl, rfl⟩

theorem legible_standard : standard.Legible :=
  fun code _ => ⟨code.assemble, functionsOf_toText code.assemble, rfl⟩

theorem exact_standard : standard.arithmetic.Exact := Arithmetic.exact_ofNodes

end Backend

end Arbor.Evaluator
