import Arbor.Proofs.Build.Compiled
import Arbor.Proofs.Dispatch

/-!
# Builds are faithful

A build that succeeds returns a resolver that serves the tree of its request, or one that no feature
vector tells apart from it. Where the evaluators are composed this holds by itself, whatever is
found in the store. Where they are taken from the store, its entries have to be usable.

## Main definitions

* `Request.Fulfilled`: what a request gets for it.
* `Request.Usable`: entries that fulfil a request on a hit.
* `Request.Puts`: entries that the build of a request puts.

## Main statements

* `Request.build_keeps`: a build fulfils its request, on a hit if the entries are usable.
* `run_eq_interpret`: without a cache, running a resolver is interpreting the tree.
-/

namespace Arbor.Build

open Evaluator

/-- A resolver with the shape of the request that serves a tree like that of the request. -/
structure Request.Fulfilled (request : Request) (arithmetic : Arithmetic) (resolver : Resolver) :
    Prop where
  geometry_eq : resolver.geometry = request.geometry
  featureCount_eq : resolver.featureCount = request.featureCount
  serves : ∃ source : Tree, source.Alike request.tree ∧ resolver.Serves arithmetic source

/-- Evaluators for the boundary nodes of a request, emitted for a tree like that of the request. -/
def Request.Suits (request : Request) (arithmetic : Arithmetic) (table : List EntryPoint) : Prop :=
  ∃ source : Tree, source.Alike request.tree ∧
    List.Forall₂ (Resolver.Evaluates arithmetic source request.functionDepth) request.roots table

def Request.Equips (request : Request) (backend : Backend) (engine : Engine) : Prop :=
  ∀ table, collect backend request.roots engine = .ok table →
    request.Suits backend.arithmetic table

/-- On a hit, entries under the key of a request give evaluators that suit the request. -/
def Request.Usable (request : Request) (backend : Backend) (entry : String → Bytes → Prop) : Prop :=
  ∀ {treeBytes moduleBytes engine},
    entry (request.key request.geometry).treeEntry treeBytes →
    entry (request.key request.geometry).moduleEntry moduleBytes →
    inspect backend request.tree (request.key request.geometry) request.roots treeBytes
      moduleBytes = .ok (.hit engine) → request.Equips backend engine

/-- What the build of a request puts are entries of this kind. -/
def Request.Puts (request : Request) (backend : Backend) (entry : String → Bytes → Prop) : Prop :=
  ∀ {functions}, 0 < request.functionDepth →
    compose request.tree request.geometry request.chooser = .ok functions →
    entry (request.key request.geometry).treeEntry (bytesOf request.tree.toJson) ∧
    entry (request.key request.geometry).moduleEntry
      (bytesOf (moduleOf backend request.tree (request.key request.geometry) functions).toJson)

variable {backend : Backend} {request : Request} {entry : String → Bytes → Prop}

theorem Request.suits_of_compose (pos : 0 < request.functionDepth) {functions : List Composed}
    (composed : compose request.tree request.geometry request.chooser = .ok functions)
    (arithmetic : Arithmetic) :
    request.Suits arithmetic (functions.map (·.function.run arithmetic)) := by
  refine ⟨request.tree, .refl _, List.forall₂_map_right_iff.2 ?_⟩
  refine ((compose_eq_ok pos request.tree.depth_le_word).1 composed).imp fun root function h => ?_
  refine ⟨function.code, request.chooser, symbolOf root, ?_, rfl⟩
  rw [Emits, if_neg (Nat.ne_of_gt pos)]
  exact (composeFunction_eq_ok.1 h).2.2

theorem Request.fulfilled_of_suits (pos : 0 < request.functionDepth)
    (chunks : request.functionDepth ∣ request.tree.depth)
    (enough : request.tree.requiredFeatures ≤ request.featureCount) {arithmetic : Arithmetic}
    {table : List EntryPoint} (suits : request.Suits arithmetic table) (report : Report) :
    request.Fulfilled arithmetic ⟨table.toArray,
      .regular request.tree.depth request.functionDepth, request.geometry, request.featureCount,
      report⟩ := by
  obtain ⟨source, alike, emitted⟩ := suits
  refine ⟨rfl, rfl, source, alike, alike.depth_eq.symm, pos, alike.depth_eq ▸ chunks, ?_, ?_, ?_⟩
  · exact congrArg (Layout.regular · request.functionDepth) alike.depth_eq.symm
  · exact alike.required_eq ▸ enough
  · exact emitted

/-! ## The dialogue of a build -/

theorem consult_keeps :
    (consult backend request.tree (request.key request.geometry) request.roots).Keeps entry
      fun result => ∀ engine, result = .ok (.hit engine) → request.Usable backend entry →
        request.Equips backend engine := by
  simp only [consult, Dialogue.keeps_bind, Dialogue.keeps_fetch]
  rintro (error | treeBytes) treeEntry
  · simp
  simp only [Dialogue.keeps_bind, Dialogue.keeps_fetch]
  rintro (error | moduleBytes) moduleEntry
  · simp
  cases treeBytes with
  | none => simp
  | some treeBytes =>
    cases moduleBytes with
    | none => simp
    | some moduleBytes =>
      intro engine hit usable
      exact usable (treeEntry _ rfl) (moduleEntry _ rfl) hit

theorem save_keeps (pos : 0 < request.functionDepth) (puts : request.Puts backend entry)
    {functions : List Composed}
    (h : compose request.tree request.geometry request.chooser = .ok functions) :
    (save backend request.tree (request.key request.geometry) functions).Keeps entry
      fun _ => True := by
  obtain ⟨treeEntry, moduleEntry⟩ := puts pos h
  simp only [save, Dialogue.keeps_bind, Dialogue.keeps_store]
  refine ⟨treeEntry, ?_⟩
  rintro (error | _)
  · simp
  · rw [Dialogue.keeps_bind, Dialogue.keeps_store]
    refine ⟨moduleEntry, ?_⟩
    rintro (error | _) <;> simp

theorem Request.equips_of_compiled (pos : 0 < request.functionDepth) {functions : List Composed}
    (compiled : request.compiled backend = .ok functions) :
    request.Equips backend (Engine.serving (functions.map Composed.named)) := by
  intro table collected
  obtain rfl := Except.ok.inj ((collect_compiled pos compiled).symm.trans collected)
  exact suits_of_compose pos (compose_of_compiled pos compiled) backend.arithmetic

theorem engineFor_keeps (pos : 0 < request.functionDepth)
    (puts : request.cached = true → request.Puts backend entry) :
    (engineFor backend request request.geometry request.roots).Keeps entry fun result =>
      ∀ engine report, result = .ok (engine, report) →
        (request.cached = true → report.cacheHit = true → request.Usable backend entry) →
          request.Equips backend engine := by
  simp only [engineFor]
  cases cached : request.cached with
  | false =>
    simp only [Bool.false_eq_true, if_false, Dialogue.keeps_bind, Dialogue.keeps_pure]
    refine (emitAll_yields pos).keeps ?_
    cases compiled : request.compiled backend with
    | error failure => simp
    | ok functions => simpa using Request.equips_of_compiled pos compiled
  | true =>
    simp only [if_true, Dialogue.keeps_bind]
    refine consult_keeps.mono ?_
    rintro (error | verdict) equips
    · simp
    simp only [Dialogue.keeps_bind, Dialogue.keeps_reportAll]
    split
    · simpa using equips
    · rw [Dialogue.keeps_bind]
      refine (emitAll_yields pos).keeps ?_
      cases compiled : request.compiled backend with
      | error failure => simp
      | ok functions =>
        have composed := Request.compose_of_compiled pos compiled
        rw [map_ok, Dialogue.keeps_bind]
        refine (save_keeps pos (puts cached) composed).mono ?_
        simpa using Request.equips_of_compiled pos compiled

/-- A build puts entries of its own kind only. If it succeeds, its request is fulfilled, on a hit as
long as the entries that it got are usable. -/
theorem Request.build_keeps (puts : request.cached = true → request.Puts backend entry) :
    (request.build backend).Keeps entry fun result =>
      ∀ resolver, result = .ok resolver →
        (request.cached = true → resolver.report.cacheHit = true → request.Usable backend entry) →
          request.Fulfilled backend.arithmetic resolver := by
  simp only [Request.build, Dialogue.keeps_bind, Dialogue.keeps_now]
  intro start
  split
  · simp
  next geometry checked =>
  obtain ⟨rfl, pos, chunks, enough⟩ := Request.check_eq_ok checked
  simp only [layoutOf_eq pos, Dialogue.keeps_bind, Dialogue.keeps_report]
  refine (engineFor_keeps pos puts).mono ?_
  rintro (failure | ⟨engine, report⟩) equips
  · simp
  dsimp only
  cases collected : collect backend request.roots engine with
  | error failure => simp
  | ok table =>
    simp only [Dialogue.keeps_bind, Dialogue.keeps_now, Dialogue.keeps_report, Dialogue.keeps_pure]
    rintro time _ ⟨rfl⟩ usable
    exact Request.fulfilled_of_suits pos chunks enough
      (equips engine report rfl usable table collected) _

/-- A build that composes its evaluators fulfils its request, whatever it is answered. -/
theorem Request.fulfilled_of_run {σ : Type} {partner : Partner (StateM σ)} {state after : σ}
    {resolver : Resolver}
    (built : ((request.build backend).run partner).run state = (.ok resolver, after))
    (composed : request.cached = true → resolver.report.cacheHit = false) :
    request.Fulfilled backend.arithmetic resolver := by
  have kept := @Request.build_keeps backend request (fun _ _ => True)
    fun _ _ _ _ => ⟨trivial, trivial⟩
  refine kept.run (fun _ _ _ _ => trivial) state resolver (congrArg Prod.fst built) ?_
  intro cached hit
  simp [composed cached] at hit

theorem Request.Fulfilled.run_eq {arithmetic : Arithmetic} {resolver : Resolver}
    (fulfilled : request.Fulfilled arithmetic resolver) (precise : arithmetic.Exact)
    {memory : Memory} (long : request.featureCount ≤ memory.features.size) {other : Tree}
    (same : other.depth = request.tree.depth) :
    ∃ leaf, resolver.run memory other = .ok leaf ∧
      request.tree.interpret memory.features = .ok leaf := by
  obtain ⟨source, alike, serves⟩ := fulfilled.serves
  rw [← fulfilled.featureCount_eq] at long
  have required := serves.required_le.trans long
  rw [serves.run_eq precise long (same.trans alike.depth_eq.symm), ← alike.interpret_eq required]
  exact ⟨_, source.interpret_eq required, source.interpret_eq required⟩

/-- A resolver that was built without a cache runs every feature vector, wherever it stands in
memory, to the leaf that the tree is interpreted to, whatever the selector mixes. Of the tree that a
run is given, only the depth counts. -/
theorem run_eq_interpret {backend : Backend} (precise : backend.arithmetic.Exact)
    {request : Request} (uncached : request.cached = false) {σ : Type}
    {partner : Partner (StateM σ)} {state after : σ} {resolver : Resolver}
    (built : ((request.build backend).run partner).run state = (.ok resolver, after))
    {memory : Memory} (long : request.featureCount ≤ memory.features.size) {other : Tree}
    (same : other.depth = request.tree.depth) :
    ∃ leaf, resolver.run memory other = .ok leaf ∧
      request.tree.interpret memory.features = .ok leaf := by
  have fulfilled := Request.fulfilled_of_run built (by simp [uncached])
  exact fulfilled.run_eq precise long same

def sampleTree : Tree := { distantTree with
  nodes := #[⟨.ofNat 0, .bypass, .lessThan, 0.5⟩,
    ⟨.ofNat 1, .sqrt, .greaterThan, 0.25⟩, ⟨.ofNat 0, .ln, .lessThan, -1.0⟩,
    ⟨.ofNat 0, .ln, .greaterThan, 0.0⟩, ⟨.ofNat 1, .bypass, .lessThan, 2.5⟩,
    ⟨.ofNat 1, .sqrt, .lessThan, 1.5⟩, ⟨.ofNat 0, .bypass, .greaterThan, -0.0⟩]
  size_eq := rfl }

/-- One function for the whole tree: a switch over two levels and branches below it. -/
def sampleRequest : Request where
  tree := sampleTree
  featureCount := 2
  functionDepth := 3
  switchDepth := 1
  selector := some (.ofEntries #[.ifThenElse, .subtreeSwitch 1, .subtreeSwitch 2])
  cached := false

/-- A partner that has no entries and whose clock ticks. -/
def idle : Partner (StateM Nat) where
  get _ := pure (.ok none)
  put _ _ := pure (.ok ())
  note _ := pure ()
  clock := modifyGet fun time => (time, time + 1)

theorem exists_of_isOk {ε α σ : Type} {result : Except ε α × σ} (h : result.1.isOk = true) :
    ∃ a after, result = (.ok a, after) := by
  obtain ⟨_ | a, after⟩ := result
  · simp [Except.isOk, Except.toBool] at h
  · exact ⟨a, after, rfl⟩

/-- Features close to the end of the address space. -/
def sampleMemory : Memory := ⟨0xfffffffffffffff8, #[0.5, 0 / 0, 3]⟩

theorem run_eq_interpret_sample : ∃ resolver after,
    ((sampleRequest.build .standard).run idle).run 0 = (.ok resolver, after) ∧
    ∃ leaf, resolver.run sampleMemory sampleTree = .ok leaf ∧
      sampleTree.interpret #[0.5, 0 / 0, 3] = .ok leaf := by
  have succeeds : (((sampleRequest.build .standard).run idle).run 0).1.isOk = true := by
    decide +kernel
  obtain ⟨resolver, after, built⟩ := exists_of_isOk succeeds
  exact ⟨resolver, after, built,
    @run_eq_interpret _ Backend.exact_standard _ rfl _ _ _ _ _ built sampleMemory (by decide) _ rfl⟩

end Arbor.Build
