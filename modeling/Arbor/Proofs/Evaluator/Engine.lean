import Arbor.Proofs.Evaluator.Backend
import Arbor.Proofs.Names
import Arbor.Proofs.Outcome
import Mathlib.Data.List.Nodup

/-!
# Engines add nothing of their own

The names of evaluators are all different and none is that of the logarithm. So an engine can only
fail where something cannot be emitted or read, or where the backend refuses it. It numbers its
functions in the order in which they come and serves each under its name, whether it was composed or
read from a text.

## Main definitions

* `Engine.declaring`, `Engine.serving`: the engine that knows exactly some names or functions.
* `Backend.accept`: what a backend says about functions that are compiled.

## Main statements

* `Engine.outcome_compose`, `Engine.outcome_submit`: the steps of an engine that composes.
* `Engine.outcome_load`: an engine that reads texts.
* `Engine.outcome_lookups`: the entry points of an engine.
-/

namespace Arbor.Evaluator

variable {α β : Type} {engine : Engine}

namespace EngineM

@[simp] theorem outcome_pure (a : α) : (pure a : EngineM α).outcome engine = .ok (a, engine) := rfl

@[simp] theorem outcome_throw (failure : Failure) :
    (throw failure : EngineM α).outcome engine = .error failure := rfl

@[simp] theorem outcome_lift (result : Except Failure α) :
    (liftM result : EngineM α).outcome engine = result.map (·, engine) := by
  cases result <;> rfl

@[simp] theorem outcome_get : (get : EngineM Engine).outcome engine = .ok (engine, engine) := rfl

@[simp] theorem outcome_set (after : Engine) :
    (set after : EngineM PUnit).outcome engine = .ok (⟨⟩, after) := rfl

theorem outcome_bind (action : EngineM α) (next : α → EngineM β) (engine : Engine) :
    (action >>= next).outcome engine =
      action.outcome engine >>= fun (a, after) => (next a).outcome after := by
  rcases first : action.run.run engine with ⟨failure | a, after⟩
  · simp only [outcome, run_bind_of_error first, first]
    rfl
  · simp only [outcome, run_bind_of_ok first, first]
    rfl

end EngineM

open EngineM

namespace Engine

variable {symbol : String} {function : Function} {backend : Backend}

/-- A new engine knows nothing, if there is one. -/
theorem start_eq (backend : Backend) :
    (∃ failure, start backend = .error failure) ∨ start backend = .ok {} := by
  unfold start
  split
  · exact .inr rfl
  · exact .inl ⟨_, rfl⟩

/-! ## Single actions -/

def names (engine : Engine) : List String := engine.entries.toList.map (·.1)

theorem position?_eq_none_iff : engine.position? symbol = none ↔ symbol ∉ engine.names := by
  simp only [position?, names, Array.findIdx?_eq_none_iff, List.mem_map, not_exists, not_and,
    beq_eq_false_iff_ne, Array.mem_toList_iff, ne_eq]

theorem position?_append {before after : List (String × Option Function)}
    {content : Option Function} (new : symbol ∉ before.map (·.1)) :
    Engine.position? ⟨(before ++ (symbol, content) :: after).toArray⟩ symbol =
      some before.length := by
  have others : before.findIdx? (·.1 == symbol) = none := by grind
  simp [position?, List.findIdx?_append, others, List.findIdx?_cons]

def declaring (engine : Engine) (symbols : List String) : Engine :=
  ⟨engine.entries ++ (symbols.map (·, none)).toArray⟩

/-- The engine that knows exactly these functions. -/
def serving (functions : List (String × Function)) : Engine :=
  ⟨(functions.map fun (symbol, function) => (symbol, some function)).toArray⟩

@[simp] theorem names_declaring (engine : Engine) (symbols : List String) :
    (engine.declaring symbols).names = engine.names ++ symbols := by
  simp [names, declaring, Function.comp_def]

@[simp] theorem declaring_nil (engine : Engine) : engine.declaring [] = engine := by
  simp [declaring]

@[simp] theorem declaring_declaring (engine : Engine) (symbols others : List String) :
    (engine.declaring symbols).declaring others = engine.declaring (symbols ++ others) := by
  simp [declaring, Array.append_assoc]

theorem outcome_declare (legal : symbol ≠ intrinsic) (new : symbol ∉ engine.names) :
    (declare symbol).outcome engine =
      .ok (engine.entries.size + 1, engine.declaring [symbol]) := by
  simp only [declare, legal, if_false, outcome_bind, outcome_get, ok_bind,
    position?_eq_none_iff.2 new, outcome_set, outcome_pure]
  simp [declaring]

theorem outcome_define {before after : List (String × Option Function)}
    (new : symbol ∉ before.map (·.1)) :
    (define backend symbol function).outcome ⟨(before ++ (symbol, none) :: after).toArray⟩ =
      (Backend.insist symbol (backend.compile function)).map fun _ =>
        ((), ⟨(before ++ (symbol, some function) :: after).toArray⟩) := by
  have entry : (before ++ (symbol, none) :: after).toArray[before.length]? =
      some (symbol, none) := by simp
  simp only [define, outcome_bind, outcome_get, ok_bind, position?_append new, entry,
    Option.bind_some, Option.isSome_none, Bool.false_eq_true, if_false, outcome_lift,
    List.setIfInBounds_toArray, List.set_append_right _ _ (Nat.le_refl _), Nat.sub_self,
    List.set_cons_zero]
  cases Backend.insist symbol (backend.compile function) <;> rfl

end Engine

/-! ## Composition -/

def composeVerified (backend : Backend) (tree : Tree) (functionDepth : Nat) (selector : Selector)
    (root : Nat) : Except Failure Composed := do
  let composed ← composeFunction tree functionDepth selector root
  Backend.insist composed.symbol (backend.verify composed.function)
  return composed

namespace Engine

variable {symbol : String} {function : Function} {backend : Backend}

/-- Composing the evaluator of a new name takes the next number. -/
theorem outcome_compose (tree : Tree) (functionDepth : Nat) (selector : Selector) {root : Nat}
    (new : symbolOf root ∉ engine.names) :
    (compose backend tree functionDepth selector root).outcome engine =
      (composeVerified backend tree functionDepth selector root).map fun composed =>
        ((engine.entries.size + 1, composed), engine.declaring [symbolOf root]) := by
  simp only [compose, outcome_bind, outcome_declare (symbolOf_ne_intrinsic root) new, ok_bind,
    outcome_lift, composeVerified, outcome_pure]
  cases composeFunction tree functionDepth selector root with
  | error failure => rfl
  | ok composed =>
    simp only [ok_bind, map_ok]
    cases Backend.insist composed.symbol (backend.verify composed.function) <;> rfl

end Engine

/-- What a backend says about functions that are compiled and made callable. -/
def Backend.accept (backend : Backend) (functions : List (String × Function)) :
    Except Failure Unit := do
  functions.forM fun (symbol, function) => insist symbol (backend.compile function)
  insist Engine.moduleSymbol (backend.finalize (functions.map (·.2)))

theorem Backend.accept_eq_ok {backend : Backend} {functions : List (String × Function)}
    (compiles : backend.Compiles (functions.map (·.2))) : backend.accept functions = .ok () := by
  have each : functions.forM (fun (symbol, function) =>
      insist symbol (backend.compile function)) = .ok () := by
    have silent := compiles.compile_eq
    rw [List.forall_mem_map] at silent
    clear compiles
    induction functions with
    | nil => rfl
    | cons f functions ih =>
      rw [List.forall_mem_cons] at silent
      simp only [List.forM, silent.1]
      exact ih silent.2
  simp only [accept, each, ok_bind, compiles.finalize_eq]
  rfl

namespace Engine

variable {symbol : String} {backend : Backend} {functions : List (String × Function)}

/-- What stands before a name without a function is left alone when the function comes. -/
theorem outcome_forM_define (before : List (String × Option Function))
    (distinct : (before.map (·.1) ++ functions.map (·.1)).Nodup) :
    (functions.forM fun (symbol, function) => define backend symbol function).outcome
        ⟨(before ++ functions.map fun f : String × Function => (f.1, none)).toArray⟩ =
      (functions.forM fun (symbol, function) =>
        Backend.insist symbol (backend.compile function)).map fun _ =>
          ((), ⟨(before ++ functions.map fun f : String × Function =>
            (f.1, some f.2)).toArray⟩) := by
  induction functions generalizing before with
  | nil => rfl
  | cons f functions ih =>
    have new : f.1 ∉ before.map (·.1) := by grind
    -- from here on `f` is one of the entries that have their function
    have later := ih (before ++ [(f.1, some f.2)]) (by simpa using distinct)
    simp only [List.append_assoc, List.cons_append, List.nil_append] at later
    simp only [List.forM, List.map_cons, outcome_bind, outcome_define new]
    cases Backend.insist f.1 (backend.compile f.2) with
    | error failure => rfl
    | ok => exact later

theorem outcome_submit (distinct : (functions.map (·.1)).Nodup) :
    (submit backend functions).outcome (Engine.declaring {} (functions.map (·.1))) =
      (backend.accept functions).map fun _ => ((), serving functions) := by
  have defined := @outcome_forM_define backend functions [] (by simpa using distinct)
  have start : Engine.declaring {} (functions.map (·.1)) =
      ⟨([] ++ functions.map fun f : String × Function => (f.1, none)).toArray⟩ := by
    simp [declaring, Function.comp_def]
  simp only [submit, start, outcome_bind, defined, Backend.accept, outcome_lift]
  cases functions.forM fun (symbol, function) =>
      Backend.insist symbol (backend.compile function) with
  | error failure => rfl
  | ok =>
    simp only [ok_bind, map_ok, List.nil_append]
    cases Backend.insist moduleSymbol (backend.finalize (functions.map (·.2))) <;> rfl

end Engine

/-! ## Texts -/

def Backend.parseAll (backend : Backend) (texts : List (String × String)) :
    Except Failure (List (String × Function)) :=
  texts.mapM fun (symbol, text) => (backend.parse symbol text).map (symbol, ·)

namespace Engine

variable {backend : Backend} {functions : List (String × Function)}
  {texts : List (String × String)}

/-- Texts are read one after another, and each declares its name. -/
theorem outcome_mapM_parse (legal : ∀ text ∈ texts, text.1 ≠ intrinsic)
    (distinct : (engine.names ++ texts.map (·.1)).Nodup) :
    (texts.mapM fun (symbol, text) => do
        let function ← liftM (backend.parse symbol text)
        let _ ← declare symbol
        return (symbol, function) : EngineM _).outcome engine =
      (backend.parseAll texts).map (·, engine.declaring (texts.map (·.1))) := by
  rw [Backend.parseAll]
  induction texts generalizing engine with
  | nil =>
    rw [List.map_nil, declaring_nil]
    rfl
  | cons first rest ih =>
    obtain ⟨symbol, text⟩ := first
    have new : symbol ∉ engine.names := by grind
    have later := @ih (engine.declaring [symbol])
      (fun other member => legal other (by simp [member])) (by simpa using distinct)
    simp only [List.mapM_cons, outcome_bind, outcome_lift]
    cases backend.parse symbol text with
    | error failure => rfl
    | ok function =>
      simp only [map_ok, ok_bind, outcome_declare (legal _ List.mem_cons_self) new, outcome_pure,
        later, declaring_declaring, List.map_cons, List.cons_append, List.nil_append]
      cases rest.mapM fun (symbol, text) => (backend.parse symbol text).map (symbol, ·) <;> rfl

theorem symbols_of_parseAll {parsed : List (String × Function)}
    (read : backend.parseAll texts = .ok parsed) : parsed.map (·.1) = texts.map (·.1) := by
  symm
  rw [← List.forall₂_eq_eq_eq, List.forall₂_map_left_iff, List.forall₂_map_right_iff]
  refine (mapM_eq_ok.1 read).imp fun text f found => ?_
  cases made : backend.parse text.1 text.2 with
  | error failure => simp [made] at found
  | ok function =>
    simp only [made, map_ok, Except.ok.injEq] at found
    rw [← found]

theorem parse_cases (backend : Backend) (symbol text : String) :
    (∃ function, backend.parse symbol text = .ok function ∧
      backend.read text = some [function]) ∨
    (∃ cause, backend.parse symbol text = .error (.error (.corrupt symbol cause)) ∧
      ¬∃ function, backend.read text = some [function]) := by
  unfold Backend.parse
  split <;> simp_all

/-- Texts that do not hold one function each are corrupt, and nothing else can go wrong. -/
theorem parseAll_cases (backend : Backend) (texts : List (String × String)) :
    (∃ parsed, backend.parseAll texts = .ok parsed ∧
      ∀ text ∈ texts, ∃ function, backend.read text.2 = some [function]) ∨
    (∃ entry cause, backend.parseAll texts = .error (.error (.corrupt entry cause)) ∧
      ¬∀ text ∈ texts, ∃ function, backend.read text.2 = some [function]) := by
  rw [Backend.parseAll]
  induction texts with
  | nil => exact .inl ⟨[], rfl, by simp⟩
  | cons first rest ih =>
    obtain ⟨symbol, text⟩ := first
    simp only [List.mapM_cons, List.forall_mem_cons]
    obtain ⟨function, parsed, read⟩ | ⟨cause, failed, unreadable⟩ :=
      parse_cases backend symbol text
    · obtain ⟨others, made, each⟩ | ⟨entry, cause, failed, unreadable⟩ := ih
      · exact .inl ⟨_, by rw [parsed, map_ok, ok_bind, made]; rfl, ⟨function, read⟩, each⟩
      · exact .inr ⟨entry, cause, by rw [parsed, map_ok, ok_bind, failed]; rfl,
          fun each => unreadable each.2⟩
    · exact .inr ⟨symbol, cause, by rw [failed]; rfl, fun each => unreadable each.1⟩

theorem accept_of_parseAll (takes : backend.AcceptsRead) {parsed : List (String × Function)}
    (read : backend.parseAll texts = .ok parsed) : backend.accept parsed = .ok () := by
  refine Backend.accept_eq_ok (takes _ ?_)
  rw [List.forall_mem_map]
  intro f member
  obtain ⟨⟨symbol, text⟩, -, made⟩ := forall₂_exists (mapM_eq_ok.1 read) member
  obtain ⟨function, parsed, found⟩ | ⟨cause, failed, -⟩ := parse_cases backend symbol text
  · simp only [parsed, map_ok, Except.ok.injEq] at made
    exact ⟨text, made ▸ found⟩
  · simp [failed] at made

/-- A new engine that loads texts serves the functions in them. -/
theorem outcome_load (legal : ∀ text ∈ texts, text.1 ≠ intrinsic)
    (distinct : (texts.map (·.1)).Nodup) :
    (load backend texts).outcome {} = do
      let parsed ← backend.parseAll texts
      backend.accept parsed
      return ((), serving parsed) := by
  rw [load, outcome_bind, outcome_mapM_parse legal (by simpa [names] using distinct)]
  cases read : backend.parseAll texts with
  | error failure => rfl
  | ok parsed =>
    have symbols := symbols_of_parseAll read
    rw [← symbols] at distinct ⊢
    simp only [map_ok, ok_bind, outcome_submit distinct]
    cases backend.accept parsed <;> rfl

/-! ## Entry points -/

theorem outcome_lookup (distinct : (functions.map (·.1)).Nodup) {f : String × Function}
    (mem : f ∈ functions) :
    (lookupEvaluator backend f.1).outcome (serving functions) =
      .ok (f.2.run backend.arithmetic, serving functions) := by
  have found : functions.find? (·.1 == f.1) = some f := by
    induction functions with
    | nil => cases mem
    | cons g functions ih => grind
  have entry : (serving functions).entries.find? (·.1 == f.1) = some (f.1, some f.2) := by
    rw [serving, List.find?_toArray, List.find?_map]
    exact congrArg (Option.map _) found
  simp only [lookupEvaluator, lookup, outcome_bind, outcome_get, ok_bind, entry, outcome_pure]

/-- Asked for all its functions in order, an engine returns all entry points. -/
theorem outcome_lookups (distinct : (functions.map (·.1)).Nodup) {roots : List Nat}
    (symbols : functions.map (·.1) = roots.map symbolOf) :
    (roots.mapM fun root => lookupEvaluator backend (symbolOf root)).outcome (serving functions) =
      .ok (functions.map (·.2.run backend.arithmetic), serving functions) := by
  have each : List.Forall₂ (fun symbol f => symbol = f.1 ∧ f ∈ functions)
      (functions.map (·.1)) functions := by
    rw [List.forall₂_map_left_iff, List.forall₂_same]
    exact fun f mem => ⟨rfl, mem⟩
  have lookups : ∀ {known : List (String × Function)} {roots : List Nat},
      List.Forall₂ (fun symbol f => symbol = f.1 ∧ f ∈ functions) (roots.map symbolOf) known →
      (roots.mapM fun root => lookupEvaluator backend (symbolOf root)).outcome (serving functions) =
        .ok (known.map (·.2.run backend.arithmetic), serving functions) := by
    intro known roots each
    rw [List.forall₂_map_left_iff] at each
    induction each with
    | nil => rfl
    | @cons root f roots known first _ ih =>
      simp only [List.mapM_cons, outcome_bind, first.1, outcome_lookup distinct first.2, ok_bind,
        ih, outcome_pure, List.map_cons]
  exact lookups (symbols ▸ each)

end Engine

end Arbor.Evaluator
