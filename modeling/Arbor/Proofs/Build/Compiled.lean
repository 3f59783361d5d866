import Arbor.Proofs.Build.Contract
import Arbor.Proofs.Evaluator.Engine
import Arbor.Proofs.Layout
import Arbor.Proofs.Walk

/-!
# Evaluators of a build

The boundary nodes of a request have names of their own, so neither the composition of evaluators
nor the engine that they are compiled in can fail by itself. What remains is emission, which depends
on the selector, and what the backend says.

## Main definitions

* `compose`: the evaluators of a tree, whatever a backend says about them.
* `Request.compiled`: the evaluators of a request, if the backend takes them.

## Main statements

* `emitAll_yields`: a build emits these evaluators, and its engine serves them.
* `Request.compose_of_compiled`, `Request.compiled_eq`: evaluators with and without a backend.
* `collect_serving`: the table that is collected from an engine.
* `engineOf_eq`, `inspect_eq_hit_iff`: what is checked before cached evaluators are used.
-/

namespace Arbor

/-- The rules of a geometry. -/
theorem Geometry.of_eq_ok {treeDepth functionDepth switchDepth : Nat} {geometry : Geometry} :
    Geometry.of treeDepth functionDepth switchDepth = .ok geometry ↔
      geometry = ⟨treeDepth, functionDepth, switchDepth⟩ ∧
      (0 < treeDepth ∧ treeDepth ≤ maxTreeDepth) ∧ 0 < functionDepth ∧
      (0 < switchDepth ∧ switchDepth ≤ maxSwitchDepth) ∧
      functionDepth ∣ treeDepth ∧ switchDepth ∣ functionDepth := by
  rw [Geometry.of, bind_eq_ok]
  simp only [validate, Nat.dvd_iff_mod_eq_zero, Nat.pos_iff_ne_zero, pure_eq_ok, Except.ok.injEq]
  constructor
  · rintro ⟨_, valid, rfl⟩
    split_ifs at valid
    simp_all
  · rintro ⟨rfl, ⟨tree, shallow⟩, function, ⟨switch, narrow⟩, chunks, steps⟩
    refine ⟨(), ?_, rfl⟩
    simp [tree, function, switch, chunks, steps, Nat.not_lt.2 shallow, Nat.not_lt.2 narrow]

namespace Evaluator

/-- The evaluators of all boundary nodes, in the order of their slots. -/
def compose (tree : Tree) (geometry : Geometry) (selector : Selector) :
    Except Failure (List Composed) := do
  let layout ← Layout.of geometry.treeDepth geometry.functionDepth
  (← layout.allNodes).mapM (composeFunction tree geometry.functionDepth selector)

variable {tree : Tree} {geometry : Geometry} {selector : Selector} {functions : List Composed}

theorem compose_eq (pos : 0 < geometry.functionDepth) (depth : geometry.treeDepth ≤ 63) :
    compose tree geometry selector =
      (Layout.regular geometry.treeDepth geometry.functionDepth).nodes.mapM
        (composeFunction tree geometry.functionDepth selector) := by
  simp [compose, Layout.of_eq pos depth, Layout.allNodes, Layout.regular, Nat.ne_of_gt pos]

theorem compose_eq_ok (pos : 0 < geometry.functionDepth) (depth : geometry.treeDepth ≤ 63) :
    compose tree geometry selector = .ok functions ↔
      List.Forall₂ (fun root function =>
        composeFunction tree geometry.functionDepth selector root = .ok function)
        (Layout.regular geometry.treeDepth geometry.functionDepth).nodes functions := by
  rw [compose_eq pos depth, mapM_eq_ok]

theorem composeFunction_eq_ok {functionDepth root : Nat} {composed : Composed} :
    composeFunction tree functionDepth selector root = .ok composed ↔
      composed.root = root ∧ composed.symbol = symbolOf root ∧
      emit tree selector (symbolOf root) functionDepth root = .ok composed.code := by
  rw [composeFunction, bind_eq_ok]
  constructor
  · rintro ⟨code, emitted, made⟩
    obtain rfl := Except.ok.inj made
    exact ⟨rfl, rfl, emitted⟩
  · rintro ⟨rfl, named, emitted⟩
    exact ⟨composed.code, emitted, by rw [← named]; rfl⟩

/-- Evaluators are named after their nodes. -/
theorem symbols_of_mapM {functionDepth : Nat} {roots : List Nat}
    (composed : roots.mapM (composeFunction tree functionDepth selector) = .ok functions) :
    functions.map (·.symbol) = roots.map symbolOf := by
  symm
  rw [← List.forall₂_eq_eq_eq, List.forall₂_map_left_iff, List.forall₂_map_right_iff]
  exact (mapM_eq_ok.1 composed).imp fun root function made =>
    (composeFunction_eq_ok.1 made).2.1.symm

theorem emitted_of_mapM {functionDepth : Nat} {roots : List Nat}
    (composed : roots.mapM (composeFunction tree functionDepth selector) = .ok functions) :
    ∀ f ∈ functions, f.code.Emitted := by
  intro f member
  obtain ⟨root, -, made⟩ := forall₂_exists (mapM_eq_ok.1 composed) member
  exact ⟨_, _, _, _, _, (composeFunction_eq_ok.1 made).2.2⟩

theorem mapM_of_verified {backend : Backend} {functionDepth : Nat} {roots : List Nat}
    (verified : roots.mapM (composeVerified backend tree functionDepth selector) = .ok functions) :
    roots.mapM (composeFunction tree functionDepth selector) = .ok functions := by
  rw [mapM_eq_ok] at verified ⊢
  refine verified.imp fun root composed made => ?_
  obtain ⟨first, emitted, made⟩ := bind_eq_ok.1 made
  obtain ⟨-, -, returned⟩ := bind_eq_ok.1 made
  rw [← Except.ok.inj returned]
  exact emitted

section accepting

variable {backend : Backend} (accepts : backend.AcceptsEmitted)

include accepts

theorem composeVerified_eq (tree : Tree) (functionDepth : Nat) (selector : Selector) :
    composeVerified backend tree functionDepth selector =
      composeFunction tree functionDepth selector := by
  funext root
  rw [composeVerified]
  cases made : composeFunction tree functionDepth selector root with
  | error failure => rfl
  | ok composed =>
    have emitted : composed.code.Emitted := ⟨_, _, _, _, _, (composeFunction_eq_ok.1 made).2.2⟩
    rw [ok_bind, Composed.function, accepts.verify_eq _ emitted]
    rfl

theorem accept_of_emitted (emitted : ∀ f ∈ functions, f.code.Emitted) :
    backend.accept (functions.map Composed.named) = .ok () := by
  have compiles := accepts.compiles _ (List.forall_mem_map.2 emitted)
  rw [List.map_map] at compiles
  apply Backend.accept_eq_ok
  simpa [Function.comp_def, Composed.named, Composed.function] using compiles

end accepting

end Evaluator

namespace Build

open Evaluator

variable {backend : Backend} {request : Request} {functions : List Composed}

namespace Request

def geometry (request : Request) : Geometry :=
  ⟨request.tree.depth, request.functionDepth, request.switchDepth⟩

def chooser (request : Request) : Selector :=
  request.selector.getD (.uniform request.switchDepth)

def roots (request : Request) : List Nat :=
  (Layout.regular request.tree.depth request.functionDepth).nodes

/-- The evaluators of a request, if the backend takes them. -/
def compiled (request : Request) (backend : Backend) : Except Failure (List Composed) := do
  let _ ← Engine.start backend
  let functions ← request.roots.mapM
    (composeVerified backend request.tree request.functionDepth request.chooser)
  backend.accept (functions.map Composed.named)
  return functions

theorem check_eq_ok {geometry : Geometry} (h : request.check = .ok geometry) :
    geometry = request.geometry ∧ 0 < request.functionDepth ∧
      request.functionDepth ∣ request.tree.depth ∧
      request.tree.requiredFeatures ≤ request.featureCount := by
  obtain ⟨shape, hshape, h⟩ := bind_eq_ok.1 h
  obtain ⟨rfl, -, pos, -, chunks, -⟩ := Geometry.of_eq_ok.1 hshape
  split at h
  · simp at h
  · next enough => exact ⟨(Except.ok.inj h).symm, pos, chunks, by omega⟩

theorem nodup_symbols (pos : 0 < request.functionDepth) :
    (request.roots.map symbolOf).Nodup :=
  (Layout.nodup_nodes pos).map symbolOf_injective

theorem symbols_of_compose (pos : 0 < request.functionDepth)
    (composed : compose request.tree request.geometry request.chooser = .ok functions) :
    functions.map (·.symbol) = request.roots.map symbolOf :=
  symbols_of_mapM ((compose_eq pos request.tree.depth_le_word).symm.trans composed)

theorem emitted_of_compose (pos : 0 < request.functionDepth)
    (composed : compose request.tree request.geometry request.chooser = .ok functions) :
    ∀ f ∈ functions, f.code.Emitted :=
  emitted_of_mapM ((compose_eq pos request.tree.depth_le_word).symm.trans composed)

/-! ## With and without a backend -/

theorem compose_of_compiled (pos : 0 < request.functionDepth)
    (compiled : request.compiled backend = .ok functions) :
    compose request.tree request.geometry request.chooser = .ok functions := by
  obtain ⟨engine, -, compiled⟩ := bind_eq_ok.1 compiled
  obtain ⟨others, verified, compiled⟩ := bind_eq_ok.1 compiled
  obtain ⟨-, -, returned⟩ := bind_eq_ok.1 compiled
  obtain rfl := Except.ok.inj returned
  exact (compose_eq pos request.tree.depth_le_word).trans (mapM_of_verified verified)

theorem start_of_compiled (compiled : request.compiled backend = .ok functions) :
    Engine.start backend = .ok {} := by
  obtain ⟨engine, start, -⟩ := bind_eq_ok.1 compiled
  obtain ⟨failure, refused⟩ | started := Engine.start_eq backend
  · simp [refused] at start
  · exact started

/-- A backend that accepts emitted evaluators changes nothing. -/
theorem compiled_eq (accepts : backend.AcceptsEmitted) (pos : 0 < request.functionDepth) :
    request.compiled backend = compose request.tree request.geometry request.chooser := by
  have start : Engine.start backend = .ok {} := by simp [Engine.start, accepts.refusal_eq]
  rw [compiled, start, ok_bind, composeVerified_eq accepts,
    compose_eq pos request.tree.depth_le_word]
  change (request.roots.mapM (composeFunction request.tree request.functionDepth request.chooser)
    >>= _) = request.roots.mapM (composeFunction request.tree request.functionDepth request.chooser)
  cases made : request.roots.mapM
      (composeFunction request.tree request.functionDepth request.chooser) with
  | error failure => rfl
  | ok functions =>
    rw [ok_bind, accept_of_emitted accepts (emitted_of_mapM made)]
    rfl

end Request

/-! ## Engines of builds -/

theorem layoutOf_eq (pos : 0 < request.functionDepth) :
    layoutOf request.geometry =
      .ok (.regular request.tree.depth request.functionDepth, request.roots) := by
  simp [layoutOf, Request.geometry, Layout.of_eq pos request.tree.depth_le_word,
    Layout.allNodes, Nat.ne_of_gt pos, Layout.regular, Request.roots]

theorem composeAll_yields (tree : Tree) (functionDepth : Nat) (selector : Selector)
    {roots : List Nat} {engine : Engine}
    (distinct : (engine.names ++ roots.map symbolOf).Nodup) :
    (composeAll backend tree functionDepth selector roots engine).Yields
      ((roots.mapM (composeVerified backend tree functionDepth selector)).map
        (·, engine.declaring (roots.map symbolOf))) := by
  induction roots generalizing engine with
  | nil => simp [composeAll]
  | cons root rest ih =>
    have new : symbolOf root ∉ engine.names := by grind
    have later := @ih (engine.declaring [symbolOf root]) (by simpa using distinct)
    rw [composeAll, Engine.outcome_compose tree functionDepth selector new, List.mapM_cons]
    cases composeVerified backend tree functionDepth selector root with
    | error failure => rfl
    | ok composed =>
      rw [Engine.declaring_declaring] at later
      refine later.bind ?_
      cases rest.mapM (composeVerified backend tree functionDepth selector) <;> rfl

/-- What a build emits is compiled, and its engine serves it. -/
theorem emitAll_yields (pos : 0 < request.functionDepth) :
    (emitAll backend request request.geometry request.roots).Yields
      ((request.compiled backend).map fun functions =>
        (functions, Engine.serving (functions.map Composed.named))) := by
  rw [emitAll, Request.compiled]
  cases Engine.start_eq backend with
  | inl refused =>
    obtain ⟨failure, refused⟩ := refused
    rw [refused]
    rfl
  | inr start =>
    rw [start]
    intro time
    have composed := @composeAll_yields backend request.tree request.functionDepth request.chooser
      request.roots {} (Request.nodup_symbols pos)
    refine composed.bind ?_
    cases made : request.roots.mapM
        (composeVerified backend request.tree request.functionDepth request.chooser) with
    | error failure => rfl
    | ok functions =>
      have symbols : (functions.map Composed.named).map (·.1) = request.roots.map symbolOf := by
        rw [List.map_map]
        exact symbols_of_mapM (mapM_of_verified made)
      have submitted := @Engine.outcome_submit backend _ (symbols ▸ Request.nodup_symbols pos)
      rw [symbols] at submitted
      simp only [map_ok, ok_bind, Dialogue.yields_now, Dialogue.yields_report]
      intro finish start
      rw [submitted]
      cases backend.accept (functions.map Composed.named) with
      | error failure => rfl
      | ok => exact fun time => rfl

theorem collect_serving {roots : List Nat} (distinct : (roots.map symbolOf).Nodup)
    {functions : List (String × Function)} (symbols : functions.map (·.1) = roots.map symbolOf) :
    collect backend roots (Engine.serving functions) =
      .ok (functions.map (·.2.run backend.arithmetic)) := by
  rw [collect, Engine.outcome_lookups (symbols ▸ distinct) symbols]
  rfl

theorem collect_compiled (pos : 0 < request.functionDepth)
    (compiled : request.compiled backend = .ok functions) :
    collect backend request.roots (Engine.serving (functions.map Composed.named)) =
      .ok (functions.map (·.function.run backend.arithmetic)) := by
  have composed := Request.compose_of_compiled pos compiled
  have symbols : (functions.map Composed.named).map (·.1) = request.roots.map symbolOf := by
    rw [List.map_map]
    exact Request.symbols_of_compose pos composed
  rw [collect_serving (Request.nodup_symbols pos) symbols, List.map_map]
  rfl

/-- Functions with the names of the evaluators of a request are read and compiled. -/
theorem engineOf_eq (pos : 0 < request.functionDepth) {functions : List Cache.Function}
    (symbols : functions.map (·.symbol) = request.roots.map symbolOf) :
    engineOf backend functions = do
      let _ ← Engine.start backend
      let parsed ← backend.parseAll (functions.map fun f => (f.symbol, f.code))
      backend.accept parsed
      return Engine.serving parsed := by
  rw [engineOf]
  cases Engine.start_eq backend with
  | inl refused =>
    obtain ⟨failure, refused⟩ := refused
    rw [refused]
    rfl
  | inr start =>
    have legal : ∀ f ∈ functions, f.symbol ≠ Engine.intrinsic := by
      rw [← List.forall_mem_map (P := (· ≠ Engine.intrinsic)), symbols, List.forall_mem_map]
      exact fun root _ => symbolOf_ne_intrinsic root
    have distinct : (functions.map (·.symbol)).Nodup := symbols ▸ Request.nodup_symbols pos
    have loaded := @Engine.outcome_load backend (functions.map fun f => (f.symbol, f.code))
      (by simpa using legal) (by simpa [Function.comp_def] using distinct)
    rw [start, ok_bind, ok_bind, loaded]
    cases backend.parseAll (functions.map fun f => (f.symbol, f.code)) with
    | error failure => rfl
    | ok parsed =>
      rw [ok_bind, ok_bind]
      cases backend.accept parsed <;> rfl

theorem collect_of_engineOf (pos : 0 < request.functionDepth) {functions : List Cache.Function}
    (symbols : functions.map (·.symbol) = request.roots.map symbolOf) {engine : Engine}
    (loaded : engineOf backend functions = .ok engine) :
    ∃ parsed, backend.parseAll (functions.map fun f => (f.symbol, f.code)) = .ok parsed ∧
      collect backend request.roots engine =
        .ok (parsed.map (·.2.run backend.arithmetic)) := by
  rw [engineOf_eq pos symbols] at loaded
  obtain ⟨-, -, loaded⟩ := bind_eq_ok.1 loaded
  obtain ⟨parsed, read, loaded⟩ := bind_eq_ok.1 loaded
  obtain ⟨-, -, served⟩ := bind_eq_ok.1 loaded
  obtain rfl := Except.ok.inj served
  have named := Engine.symbols_of_parseAll read
  rw [List.map_map] at named
  exact ⟨parsed, read, collect_serving (Request.nodup_symbols pos) (named.trans symbols)⟩

/-- What a backend that takes what it reads makes of cached functions. -/
theorem engineOf_cases (takes : backend.AcceptsRead) (start : Engine.start backend = .ok {})
    (pos : 0 < request.functionDepth) {functions : List Cache.Function}
    (symbols : functions.map (·.symbol) = request.roots.map symbolOf) :
    (∃ engine, engineOf backend functions = .ok engine ∧
      ∀ f ∈ functions, ∃ function, backend.read f.code = some [function]) ∨
    (∃ entry cause, engineOf backend functions = .error (.error (.corrupt entry cause)) ∧
      ¬∀ f ∈ functions, ∃ function, backend.read f.code = some [function]) := by
  rw [engineOf_eq pos symbols, start, ok_bind]
  have texts := Engine.parseAll_cases backend (functions.map fun f => (f.symbol, f.code))
  rw [List.forall_mem_map] at texts
  obtain ⟨parsed, read, each⟩ | ⟨entry, cause, failed, unreadable⟩ := texts
  · refine .inl ⟨Engine.serving parsed, ?_, each⟩
    rw [read, ok_bind, Engine.accept_of_parseAll takes read]
    rfl
  · exact .inr ⟨entry, cause, by rw [failed]; rfl, unreadable⟩

/-- Evaluators that were written are read as functions that return the same. -/
theorem parseAll_moduleOf (legible : backend.Legible) (emitted : ∀ f ∈ functions, f.code.Emitted)
    (tree : Tree) (key : Cache.Key) :
    ∃ parsed, backend.parseAll ((moduleOf backend tree key functions).functions.map
        fun f => (f.symbol, f.code)) = .ok parsed ∧
      parsed.map (·.2.run backend.arithmetic) =
        functions.map (·.function.run backend.arithmetic) := by
  simp only [Backend.parseAll, moduleOf]
  induction functions with
  | nil => exact ⟨[], rfl, rfl⟩
  | cons f rest ih =>
    rw [List.forall_mem_cons] at emitted
    obtain ⟨function, read, same⟩ := legible f.code emitted.1
    obtain ⟨parsed, others, sameOthers⟩ := ih emitted.2
    have first : backend.parse f.symbol (backend.write f.function) = .ok function := by
      simp only [Backend.parse, Composed.function, read]
    refine ⟨(f.symbol, function) :: parsed, ?_, ?_⟩
    · simp only [List.map_cons, List.mapM_cons, first, map_ok, ok_bind, others, pure_eq_ok]
    · simp only [List.map_cons, same, sameOthers, Composed.function]

@[simp] theorem Verdict.ofFailure_ne_hit (failure : Failure) (engine : Engine) :
    Verdict.ofFailure failure ≠ .ok (.hit engine) := by
  unfold Verdict.ofFailure
  split <;> simp

/-- What a hit has checked. -/
theorem inspect_eq_hit_iff {tree : Tree} {key : Cache.Key} {roots : List Nat}
    {treeBytes moduleBytes : Bytes} {engine : Engine} :
    inspect backend tree key roots treeBytes moduleBytes = .ok (.hit engine) ↔
      (∃ cached, Tree.ofJson treeBytes = .ok cached ∧ (cached == tree) = true) ∧
      ∃ cached, Cache.Module.ofJson moduleBytes = .ok cached ∧ cached.key = key ∧
        (cached.tree == tree) = true ∧
        cached.functions.map (·.symbol) = roots.map symbolOf ∧
        engineOf backend cached.functions = .ok engine := by
  constructor
  · intro h
    unfold inspect at h
    repeat' split at h
    all_goals simp_all [bne]
  · rintro ⟨⟨cachedTree, readTree, equalTree⟩, cached, read, key, equal, symbols, loaded⟩
    simp [inspect, readTree, equalTree, read, key, equal, symbols, loaded, bne]

theorem inspect_isOk (takes : backend.AcceptsRead) (start : Engine.start backend = .ok {})
    (pos : 0 < request.functionDepth) {tree : Tree} {key : Cache.Key}
    (treeBytes moduleBytes : Bytes) :
    ∃ verdict, inspect backend tree key request.roots treeBytes moduleBytes = .ok verdict := by
  unfold inspect
  -- every check but the last one has a verdict of its own
  repeat (split; · exact ⟨_, rfl⟩)
  next symbols =>
  obtain ⟨engine, loaded, -⟩ | ⟨entry, cause, corrupt, -⟩ :=
    engineOf_cases takes start pos (Decidable.not_not.1 symbols)
  · rw [loaded]
    exact ⟨_, rfl⟩
  · rw [corrupt]
    exact ⟨_, rfl⟩

end Build

end Arbor
