import Arbor.Proofs.Build.Conversation
import Arbor.Proofs.Build.Shared

/-!
# Builds repair their entries

A store in memory answers every get and every put. So a build on such a store ends as one without a
cache would, unless it finds its evaluators. Whatever was wrong with its entries, afterwards they
are those that it has written itself.

## Main definitions

* `Partner.onMemory`: a store in memory as the partner of a build.
* `Request.findings`, `Request.write`: what a build finds in a memory and what it leaves there.
* `Request.Finds`: entries that are as they should be.

## Main statements

* `Request.run_onMemory`: the step that a build takes from one memory to the next.
* `Request.judge_findings`: a build is a hit if and only if it finds its entries.
* `Request.finds_iff`: which written entries are found.
* `build_repairs`: every memory is survived and repaired.
-/

namespace Arbor

open Build

/-- Nothing but the tree itself is read from its document. -/
theorem Tree.eq_of_ofJson {tree read : Tree} (h : Tree.ofJson (bytesOf tree.toJson) = .ok read) :
    read = tree := by
  have only : Json.Yields False (Tree.ofJson (bytesOf tree.toJson)) tree :=
    (tree.reads_toJson False.elim).document
  exact only.eq_of_ok h

/-- A tree is read from its document only if its biases are finite. -/
theorem Tree.isFinite_of_ofJson {tree read : Tree}
    (h : Tree.ofJson (bytesOf tree.toJson) = .ok read) : tree.IsFinite := by
  by_contra infinite
  have stop := (tree.stops_toJson (by simpa [IsFinite] using infinite)).document
  rw [Tree.ofJson, stop] at h
  cases h

namespace Build

open Evaluator

variable {α σ : Type} {backend : Backend} {request : Request} {calls : List Call}
  {memory after : Cache.Memory} {functions : List Composed}

/-! ## Memories as partners -/

/-- A partner that keeps its entries in memory, with the observer and the clock of `world`. -/
def Partner.onMemory (world : Partner (StateM σ)) : Partner (StateM (Cache.Memory × σ)) where
  get key := fun (memory, state) => (.ok (memory.get? key), memory, state)
  put key bytes := fun (memory, state) => (.ok (), memory.put key bytes, state)
  note event := fun (memory, state) => ((), memory, (world.note event state).2)
  clock := fun (memory, state) => ((world.clock state).1, memory, (world.clock state).2)

/-- A memory gives these answers, one after another, and is left as `after`. -/
def Answers : Cache.Memory → List Call → Cache.Memory → Prop
  | memory, [], after => after = memory
  | memory, .get key answer :: rest, after =>
    answer = .ok (memory.get? key) ∧ Answers memory rest after
  | memory, .put key bytes answer :: rest, after =>
    answer = .ok () ∧ Answers (memory.put key bytes) rest after

theorem answers_run (world : Partner (StateM σ)) (d : Dialogue α) (memory : Cache.Memory)
    (state : σ) :
    Answers memory (d.transcript world.onMemory (memory, state))
      (d.run world.onMemory (memory, state)).2.1 := by
  induction d generalizing memory state with
  | done a => rfl
  | get key next ih => exact ⟨rfl, ih _ memory state⟩
  | put key bytes next ih => exact ⟨rfl, ih _ (memory.put key bytes) state⟩
  | note event next ih => exact ih memory (world.note event state).2
  | clock next ih => exact ih _ memory (world.clock state).2

def Request.findings (request : Request) (memory : Cache.Memory) : Finding :=
  .ok (memory.get? request.cacheKey.treeEntry, memory.get? request.cacheKey.moduleEntry)

def Request.write (request : Request) (backend : Backend) (memory : Cache.Memory)
    (functions : List Composed) : Cache.Memory :=
  (memory.put request.cacheKey.treeEntry (bytesOf request.tree.toJson)).put
    request.cacheKey.moduleEntry
    (bytesOf (moduleOf backend request.tree request.cacheKey functions).toJson)

theorem Request.get?_write (memory : Cache.Memory) (functions : List Composed) (name : String) :
    (request.write backend memory functions).get? name =
      if name = request.cacheKey.moduleEntry then
        some (bytesOf (moduleOf backend request.tree request.cacheKey functions).toJson)
      else if name = request.cacheKey.treeEntry then some (bytesOf request.tree.toJson)
      else memory.get? name := by
  unfold write
  by_cases module : name = request.cacheKey.moduleEntry
  · rw [if_pos module, module, Cache.Memory.get?_put_self]
  · rw [if_neg module, Cache.Memory.get?_put_of_ne _ module]
    by_cases tree : name = request.cacheKey.treeEntry
    · rw [if_pos tree, tree, Cache.Memory.get?_put_self]
    · rw [if_neg tree, Cache.Memory.get?_put_of_ne _ tree]

theorem Asks.of_answers {gets puts : List Call} {found : Finding}
    (asked : Asks request.cacheKey gets found) (answers : Answers memory (gets ++ puts) after) :
    found = request.findings memory ∧ Answers memory puts after := by
  cases asked <;> simp_all [Answers, Request.findings]

theorem Request.Saves.of_answers {puts : List Call} (saved : request.Saves backend functions puts)
    (answers : Answers memory puts after) : after = request.write backend memory functions := by
  cases saved <;> simp_all [Answers, Request.write]

def Request.leaves (request : Request) (backend : Backend) (memory : Cache.Memory) :
    Cache.Memory :=
  (request.composed? backend (request.findings memory)).elim memory (request.write backend memory)

/-- The step that a build takes from one memory to the next. -/
theorem Request.run_onMemory (cached : request.cached = true) {world : Partner (StateM σ)}
    {state left : σ} {result : Except Failure Resolver}
    (run : (request.build backend).run world.onMemory (memory, state) = (result, after, left)) :
    (∃ cause, request.check = .error cause ∧ result = .error (.error (.invalid cause)) ∧
      after = memory) ∨
    (request.check = .ok request.geometry ∧
      (∃ duration, result =
        (request.outcome backend (request.findings memory)).map (request.resolver duration)) ∧
      after = request.leaves backend memory) := by
  have made := Dialogue.makes_run world.onMemory (request.build backend) (memory, state)
  have answers := answers_run world (request.build backend) memory state
  rw [run] at made answers
  rcases course_of_makes cached made with ⟨cause, refused, silent, failed⟩ |
    ⟨checked, gets, puts, found, duration, append, course, returned⟩
  · rw [silent] at answers
    exact .inl ⟨cause, refused, failed, answers⟩
  · rw [append] at answers
    obtain ⟨rfl, answers⟩ := course.asked.of_answers answers
    refine .inr ⟨checked, ⟨duration, returned⟩, ?_⟩
    unfold leaves
    cases composed : request.composed? backend (request.findings memory) with
    | none =>
      rw [course.idle composed] at answers
      exact answers
    | some functions => exact Saves.of_answers (course.saved functions composed) answers

/-! ## Entries that were written -/

theorem Request.fits_of_check (checked : request.check = .ok request.geometry)
    (word : request.featureCount < Word.limit) : request.cacheKey.Fits := by
  obtain ⟨shape, shaped, -⟩ := bind_eq_ok.1 checked
  obtain ⟨rfl, ⟨-, shallow⟩, pos, ⟨-, narrow⟩, chunks, -⟩ := Geometry.of_eq_ok.1 shaped
  have levels := Nat.le_of_dvd request.tree.depth_pos chunks
  simp only [maxTreeDepth, maxSwitchDepth] at shallow narrow
  constructor <;> simp only [key, geometry] <;> omega

/-- The entries of a request hold an equal tree and functions for it that can be read. -/
structure Request.Finds (request : Request) (backend : Backend) (memory : Cache.Memory) : Prop where
  tree : ∃ bytes cached, memory.get? request.cacheKey.treeEntry = some bytes ∧
    Tree.ofJson bytes = .ok cached ∧ (cached == request.tree) = true
  module : ∃ bytes cached, memory.get? request.cacheKey.moduleEntry = some bytes ∧
    Cache.Module.ofJson bytes = .ok cached ∧ cached.key = request.cacheKey ∧
    (cached.tree == request.tree) = true ∧
    cached.functions.map (·.symbol) = request.roots.map symbolOf ∧
    ∀ f ∈ cached.functions, ∃ function, backend.read f.code = some [function]

theorem judge_findings_eq_hit {engine : Engine} :
    request.judge backend (request.findings memory) = .ok (.hit engine) ↔
      ∃ treeBytes moduleBytes,
        memory.get? request.cacheKey.treeEntry = some treeBytes ∧
        memory.get? request.cacheKey.moduleEntry = some moduleBytes ∧
        inspect backend request.tree request.cacheKey request.roots treeBytes moduleBytes =
          .ok (.hit engine) := by
  unfold Request.findings Request.judge
  cases memory.get? request.cacheKey.treeEntry <;>
    cases memory.get? request.cacheKey.moduleEntry <;> simp

/-- A hit has found its entries, and it has an evaluator for every boundary node. -/
theorem Request.finds_of_hit (pos : 0 < request.functionDepth) {engine : Engine}
    (judged : request.judge backend (request.findings memory) = .ok (.hit engine)) :
    request.Finds backend memory ∧ ∃ table, collect backend request.roots engine = .ok table ∧
      table.length = request.roots.length := by
  obtain ⟨treeBytes, moduleBytes, treeEntry, moduleEntry, hit⟩ := judge_findings_eq_hit.1 judged
  obtain ⟨⟨cachedTree, readTree, equalTree⟩, cached, read, key, equal, symbols, loaded⟩ :=
    inspect_eq_hit_iff.1 hit
  obtain ⟨parsed, texts, collected⟩ := collect_of_engineOf pos symbols loaded
  have readable : ∀ f ∈ cached.functions, ∃ function, backend.read f.code = some [function] := by
    have each := Engine.parseAll_cases backend (cached.functions.map fun f => (f.symbol, f.code))
    simpa [texts] using each
  have length : parsed.length = request.roots.length := by
    have named := congrArg List.length (Engine.symbols_of_parseAll texts)
    have all := congrArg List.length symbols
    simp only [List.length_map] at named all
    exact named.trans all
  exact ⟨⟨⟨treeBytes, cachedTree, treeEntry, readTree, equalTree⟩,
    moduleBytes, cached, moduleEntry, read, key, equal, symbols, readable⟩,
    _, collected, by simpa using length⟩

/-- A backend that takes what it reads ends no build because of what was found. -/
theorem Request.judge_findings (takes : backend.AcceptsRead)
    (start : Engine.start backend = .ok {}) (pos : 0 < request.functionDepth)
    (memory : Cache.Memory) :
    (request.Finds backend memory ∧
      ∃ engine, request.judge backend (request.findings memory) = .ok (.hit engine)) ∨
    (¬request.Finds backend memory ∧ ∃ verdict, (∀ engine, verdict ≠ .hit engine) ∧
      request.judge backend (request.findings memory) = .ok verdict) := by
  by_cases finds : request.Finds backend memory
  · obtain ⟨treeBytes, cachedTree, treeEntry, readTree, equalTree⟩ := finds.tree
    obtain ⟨moduleBytes, cached, moduleEntry, read, key, equal, symbols, readable⟩ := finds.module
    obtain ⟨engine, loaded, -⟩ | ⟨_, _, -, unreadable⟩ := engineOf_cases takes start pos symbols
    · refine .inl ⟨finds, engine, judge_findings_eq_hit.2 ⟨_, _, treeEntry, moduleEntry, ?_⟩⟩
      exact inspect_eq_hit_iff.2 ⟨⟨_, readTree, equalTree⟩, _, read, key, equal, symbols, loaded⟩
    · exact absurd readable unreadable
  · have answered : ∃ verdict, request.judge backend (request.findings memory) = .ok verdict := by
      unfold Request.findings Request.judge
      cases memory.get? request.cacheKey.treeEntry <;>
        cases memory.get? request.cacheKey.moduleEntry
      case some.some => exact inspect_isOk takes start pos _ _
      all_goals exact ⟨_, rfl⟩
    obtain ⟨verdict, judged⟩ := answered
    refine .inr ⟨finds, verdict, ?_, judged⟩
    rintro engine rfl
    exact finds (finds_of_hit pos judged).1

theorem Request.outcome_of_finds (takes : backend.AcceptsRead)
    (start : Engine.start backend = .ok {}) (pos : 0 < request.functionDepth)
    (finds : request.Finds backend memory) :
    ∃ table, request.outcome backend (request.findings memory) = .ok (table, ⟨true, 0, 0, 0⟩) ∧
      request.composed? backend (request.findings memory) = none := by
  obtain ⟨-, engine, judged⟩ | ⟨misses, -⟩ := judge_findings takes start pos memory
  · obtain ⟨-, table, collected, -⟩ := finds_of_hit pos judged
    exact ⟨table, by simp [outcome, judged, collected], by simp [composed?, judged]⟩
  · exact absurd finds misses

theorem Request.outcome_of_not_finds (takes : backend.AcceptsRead)
    (pos : 0 < request.functionDepth) (compiled : request.compiled backend = .ok functions)
    (misses : ¬request.Finds backend memory) :
    request.outcome backend (request.findings memory) = .ok (fresh backend functions) ∧
      request.composed? backend (request.findings memory) = some functions := by
  obtain ⟨finds, -⟩ | ⟨-, verdict, miss, judged⟩ :=
    judge_findings takes (start_of_compiled compiled) pos memory
  · exact absurd finds misses
  · rw [outcome_of_miss judged miss, composed?_of_miss judged miss, compiled]
    exact ⟨rfl, rfl⟩

/-- Written entries are found if and only if both were written for a tree that is equal to that of
the request, and this tree is finite. -/
theorem Request.finds_iff (legible : backend.Legible) {old other : Tree}
    (emitted : ∀ f ∈ functions, f.code.Emitted)
    (symbols : functions.map (·.symbol) = request.roots.map symbolOf)
    (fits : request.cacheKey.Fits)
    (treeEntry : memory.get? request.cacheKey.treeEntry = some (bytesOf old.toJson))
    (moduleEntry : memory.get? request.cacheKey.moduleEntry =
      some (bytesOf (moduleOf backend other request.cacheKey functions).toJson)) :
    request.Finds backend memory ↔
      request.tree.IsFinite ∧ (old == request.tree) = true ∧ (other == request.tree) = true := by
  constructor
  · rintro ⟨⟨treeBytes, cachedTree, found, readTree, equalTree⟩,
      moduleBytes, cached, foundModule, read, -, equal, -⟩
    obtain rfl := Option.some.inj (found.symm.trans treeEntry)
    obtain rfl := Option.some.inj (foundModule.symm.trans moduleEntry)
    obtain rfl := Tree.eq_of_ofJson readTree
    obtain rfl := Cache.Module.eq_of_ofJson read
    have finite := Tree.isFinite_of_ofJson readTree
    exact ⟨(Tree.isFinite_congr_of_beq equalTree).1 finite, equalTree, equal⟩
  · rintro ⟨finite, equalTree, equal⟩
    have readTree : Tree.ofJson (bytesOf old.toJson) = .ok old :=
      (old.reads_toJson fun _ => (Tree.isFinite_congr_of_beq equalTree).2 finite).document.eq_ok
        trivial
    have read : Cache.Module.ofJson
        (bytesOf (moduleOf backend other request.cacheKey functions).toJson) =
          .ok (moduleOf backend other request.cacheKey functions) := by
      have document := (moduleOf backend other request.cacheKey functions).reads_toJson
        (fun _ : True => (Tree.isFinite_congr_of_beq equal).2 finite) fun _ => fits
      rw [Cache.Module.ofJson, document.document.eq_ok trivial]
      rfl
    refine ⟨⟨_, old, treeEntry, readTree, equalTree⟩, _, _, moduleEntry, read, rfl, equal, ?_, ?_⟩
    · rw [moduleOf, List.map_map]
      exact symbols
    · rw [moduleOf, List.forall_mem_map]
      intro f member
      obtain ⟨function, read, -⟩ := legible f.code (emitted f member)
      exact ⟨function, read⟩

/-- What was written for a finite tree is found again. -/
theorem Request.finds_write (legible : backend.Legible)
    (checked : request.check = .ok request.geometry) (word : request.featureCount < Word.limit)
    (finite : request.tree.IsFinite)
    (composed : compose request.tree request.geometry request.chooser = .ok functions)
    (memory : Cache.Memory) : request.Finds backend (request.write backend memory functions) := by
  obtain ⟨-, pos, -, -⟩ := check_eq_ok checked
  refine (finds_iff legible (emitted_of_compose pos composed) (symbols_of_compose pos composed)
    (fits_of_check checked word) ?_ ?_).2 ⟨finite, finite.beq_self, finite.beq_self⟩
  · simp [get?_write, Cache.Key.treeEntry_ne_moduleEntry]
  · simp [get?_write]

/-! ## Repair -/

/-- A request that is accepted without a cache has evaluators that can be compiled. -/
theorem Request.compiled_of_accepted {plain : Resolver} (uncached : request.cached = false)
    (made : (request.build backend).Makes calls (.ok plain)) :
    request.check = .ok request.geometry ∧ ∃ functions,
      request.compiled backend = .ok functions ∧
      plain.undated = request.resolver 0 (fresh backend functions) := by
  obtain ⟨cause, -, -, refused⟩ | ⟨checked, engine, duration, made, returned⟩ :=
    table_of_makes made
  · cases refused
  · obtain ⟨-, pos, -, -⟩ := check_eq_ok checked
    rw [(engineFor_makes_plain pos uncached made).2] at returned
    refine ⟨checked, ?_⟩
    cases compiled : request.compiled backend with
    | error failure => simp [compiled] at returned
    | ok functions =>
      rw [compiled] at returned
      obtain rfl := Except.ok.inj returned
      exact ⟨functions, rfl, rfl⟩

/-- A build on a memory returns what there is to be had. -/
theorem Request.run_of_outcome (cached : request.cached = true)
    (checked : request.check = .ok request.geometry) {made : List EntryPoint × Report}
    (done : request.outcome backend (request.findings memory) = .ok made)
    (world : Partner (StateM σ)) (state : σ) :
    ∃ duration left, (request.build backend).run world.onMemory (memory, state) =
      (.ok (request.resolver duration made), request.leaves backend memory, left) := by
  rcases run : (request.build backend).run world.onMemory (memory, state) with
    ⟨result, after, left⟩
  obtain ⟨cause, refused, -⟩ | ⟨-, ⟨duration, rfl⟩, rfl⟩ := run_onMemory cached run
  · simp [checked] at refused
  · exact ⟨duration, left, by rw [done]; rfl⟩

/-- Whatever a memory holds, a request that is accepted without a cache is built on it. It is a hit
if and only if its entries are as they should be. If it is none, the evaluators are those of a build
without a cache. Afterwards they are found, if the biases of the tree are finite. -/
theorem build_repairs {backend : Backend} (takes : backend.AcceptsRead)
    (legible : backend.Legible) {request : Request} (cached : request.cached = true) {σ τ : Type}
    {alone : Partner (StateM τ)} {start finish : τ} {plain : Resolver}
    (accepted : ({ request with cached := false }.build backend).run alone start =
      (.ok plain, finish))
    (world : Partner (StateM σ)) (memory : Cache.Memory) (state : σ) :
    ∃ resolver after left,
      (request.build backend).run world.onMemory (memory, state) = (.ok resolver, after, left) ∧
      (resolver.report.cacheHit = true ↔ request.Finds backend memory) ∧
      (resolver.report.cacheHit = false → resolver.undated = plain.undated) ∧
      (request.tree.IsFinite → request.featureCount < Word.limit → ∀ later, ∃ again rest,
        (request.build backend).run world.onMemory (after, later) = (.ok again, rest) ∧
          again.report.cacheHit = true) := by
  have made := Dialogue.makes_run alone ({ request with cached := false }.build backend) start
  rw [accepted] at made
  obtain ⟨checked, functions, compiled, same⟩ := Request.compiled_of_accepted rfl made
  change request.check = .ok request.geometry at checked
  change request.compiled backend = .ok functions at compiled
  obtain ⟨-, pos, -, -⟩ := Request.check_eq_ok checked
  have begun := Request.start_of_compiled compiled
  -- An entry that is found is found by the next build too.
  have again {after : Cache.Memory} (finds : request.Finds backend after) (later : σ) :
      ∃ again rest, (request.build backend).run world.onMemory (after, later) = (.ok again, rest) ∧
        again.report.cacheHit = true := by
    obtain ⟨table, found, -⟩ := Request.outcome_of_finds takes begun pos finds
    obtain ⟨duration, left, run⟩ := Request.run_of_outcome cached checked found world later
    exact ⟨_, _, run, rfl⟩
  by_cases finds : request.Finds backend memory
  · obtain ⟨table, found, idle⟩ := Request.outcome_of_finds takes begun pos finds
    obtain ⟨duration, left, run⟩ := Request.run_of_outcome cached checked found world state
    have kept : request.leaves backend memory = memory := by simp [Request.leaves, idle]
    rw [kept] at run
    exact ⟨_, memory, left, run, by simp [Request.resolver, finds], by simp [Request.resolver],
      fun _ _ => again finds⟩
  · obtain ⟨missed, chosen⟩ := Request.outcome_of_not_finds takes pos compiled finds
    obtain ⟨duration, left, run⟩ := Request.run_of_outcome cached checked missed world state
    have written : request.leaves backend memory = request.write backend memory functions := by
      simp [Request.leaves, chosen]
    rw [written] at run
    have composed := Request.compose_of_compiled pos compiled
    exact ⟨_, _, left, run, by simp [Request.resolver, fresh, finds], fun _ => same.symm,
      fun finite word => again (Request.finds_write legible checked word finite composed memory)⟩

/-- A memory where the sample's tree is cut off and its module has no members. -/
def damaged : Cache.Memory where
  entries := [(cachedSample.cacheKey.treeEntry, bytesOf "[\x7b\"feature_index\":0"),
    (cachedSample.cacheKey.moduleEntry, bytesOf "\x7b\x7d")]

theorem build_repairs_damaged : ∃ plain finish,
    (sampleRequest.build .standard).run idle 0 = (.ok plain, finish) ∧ ∃ resolver after left,
      (cachedSample.build .standard).run idle.onMemory (damaged, 5) = (.ok resolver, after, left) ∧
      resolver.report.cacheHit = false ∧ resolver.undated = plain.undated ∧
      ∃ again rest, (cachedSample.build .standard).run idle.onMemory (after, 5) =
        (.ok again, rest) ∧ again.report.cacheHit = true := by
  have succeeds : ((sampleRequest.build .standard).run idle 0).1.isOk = true := by decide +kernel
  obtain ⟨plain, finish, accepted⟩ := exists_of_isOk succeeds
  have finite : cachedSample.tree.IsFinite := by
    unfold Tree.IsFinite
    decide +kernel
  have damage : ¬cachedSample.Finds .standard damaged := by
    rintro ⟨⟨bytes, cached, found, read, -⟩, -⟩
    obtain rfl : bytesOf "[\x7b\"feature_index\":0" = bytes := Option.some.inj found
    have stopped : (Tree.ofJson (bytesOf "[\x7b\"feature_index\":0")).isOk = false := by
      decide +kernel
    simp [read, Except.isOk, Except.toBool] at stopped
  obtain ⟨resolver, after, left, run, hit, same, again⟩ :=
    @build_repairs _ Backend.acceptsRead_standard Backend.legible_standard cachedSample rfl
      _ _ _ _ _ _ accepted idle damaged 5
  have missed : resolver.report.cacheHit = false := Bool.eq_false_iff.2 (damage ∘ hit.1)
  exact ⟨plain, finish, accepted, resolver, after, left, run, missed, same missed,
    again finite (by decide) 5⟩

end Build

end Arbor
