import Arbor.Proofs.Build.Faithful

/-!
# What a build asks of its store

A build with a cache gets at most two entries and puts at most two, and every call of the store
depends on the answers to the calls before it. `Dialogue.Makes` describes the calls that a dialogue
can make, with all answers that a store could give. `Request.Course` says what the calls of a build
can be: nothing else looks into the build, and all that is said about builds and stores follows from
it.

## Main definitions

* `Call`, `Dialogue.Makes`, `Dialogue.transcript`: calls of a store with their answers.
* `Request.Course`: the calls of a build.
* `Request.Orderly`: what a build does to its store.

## Main statements

* `Dialogue.makes_run`: every run makes the calls of its transcript.
* `Request.course_of_makes`: the calls that a build makes, and what it returns.
* `build_calls`: every build is orderly, whatever the store answers.
-/

namespace Arbor

/-- The resolver without the time that its build took. -/
def Resolver.undated (resolver : Resolver) : Resolver :=
  { resolver with report := { resolver.report with duration := 0 } }

namespace Build

open Evaluator

inductive Call where
  | get (key : String) (answer : Except Error (Option Bytes))
  | put (key : String) (bytes : Bytes) (answer : Except Error Unit)

namespace Call

def key : Call → String
  | get key _ => key
  | put key _ _ => key

def isPut : Call → Bool
  | get _ _ => false
  | put _ _ _ => true

end Call

namespace Dialogue

variable {α β : Type} {calls : List Call} {result : β}

/-- The dialogue can make these calls, in this order and with these answers, and return `result`.
The clock may show anything. -/
def Makes : Dialogue α → List Call → α → Prop
  | done a, calls, result => calls = [] ∧ result = a
  | get key next, calls, result =>
    ∃ answer rest, calls = .get key answer :: rest ∧ (next answer).Makes rest result
  | put key bytes next, calls, result =>
    ∃ answer rest, calls = .put key bytes answer :: rest ∧ (next answer).Makes rest result
  | note _ next, calls, result => next.Makes calls result
  | clock next, calls, result => ∃ time, (next time).Makes calls result

@[simp] theorem makes_now (f : Nat → Dialogue β) :
    (now >>= f).Makes calls result ↔ ∃ time, (f time).Makes calls result := Iff.rfl

@[simp] theorem makes_report (event : Event) (f : Unit → Dialogue β) :
    (report event >>= f).Makes calls result ↔ (f ()).Makes calls result := Iff.rfl

@[simp] theorem makes_reportAll (events : List Event) (f : Unit → Dialogue β) :
    (reportAll events >>= f).Makes calls result ↔ (f ()).Makes calls result := by
  induction events with
  | nil => rfl
  | cons event rest ih => exact ih

/-- The calls of a sequence are those of its parts. -/
theorem makes_bind {d : Dialogue α} {f : α → Dialogue β} (h : (d >>= f).Makes calls result) :
    ∃ first a rest, d.Makes first a ∧ (f a).Makes rest result ∧ calls = first ++ rest := by
  change (d.bind f).Makes calls result at h
  induction d generalizing calls with
  | done a => exact ⟨[], a, calls, ⟨rfl, rfl⟩, h, rfl⟩
  | get key next ih =>
    obtain ⟨answer, others, rfl, h⟩ := h
    obtain ⟨first, a, rest, made, later, rfl⟩ := ih answer h
    exact ⟨.get key answer :: first, a, rest, ⟨answer, first, rfl, made⟩, later, rfl⟩
  | put key bytes next ih =>
    obtain ⟨answer, others, rfl, h⟩ := h
    obtain ⟨first, a, rest, made, later, rfl⟩ := ih answer h
    exact ⟨.put key bytes answer :: first, a, rest, ⟨answer, first, rfl, made⟩, later, rfl⟩
  | note event next ih => exact ih h
  | clock next ih =>
    obtain ⟨time, h⟩ := h
    obtain ⟨first, a, rest, made, later⟩ := ih time h
    exact ⟨first, a, rest, ⟨time, made⟩, later⟩

/-- A dialogue that needs no store makes no calls. -/
theorem Yields.makes {d : Dialogue α} {a r : α} (h : d.Yields a) {calls : List Call}
    (made : d.Makes calls r) : calls = [] ∧ r = a := by
  induction d with
  | done b =>
    obtain ⟨rfl, rfl⟩ := made
    exact ⟨rfl, h.symm⟩
  | get key next => exact h.elim
  | put key bytes next => exact h.elim
  | note event next ih => exact ih h made
  | clock next ih =>
    obtain ⟨time, made⟩ := made
    exact ih time (h time) made

def transcript {σ : Type} (partner : Partner (StateM σ)) : Dialogue α → σ → List Call
  | done _, _ => []
  | get key next, state =>
    let (answer, state) := partner.get key state
    .get key answer :: (next answer).transcript partner state
  | put key bytes next, state =>
    let (answer, state) := partner.put key bytes state
    .put key bytes answer :: (next answer).transcript partner state
  | note event next, state => next.transcript partner (partner.note event state).2
  | clock next, state =>
    let (time, state) := partner.clock state
    (next time).transcript partner state

/-- A run makes its calls, whoever answers them. -/
theorem makes_run {σ : Type} (partner : Partner (StateM σ)) (d : Dialogue α) (state : σ) :
    d.Makes (d.transcript partner state) (d.run partner state).1 := by
  induction d generalizing state with
  | done a => exact ⟨rfl, rfl⟩
  | get key next ih => exact ⟨_, _, rfl, ih _ (partner.get key state).2⟩
  | put key bytes next ih => exact ⟨_, _, rfl, ih _ (partner.put key bytes state).2⟩
  | note event next ih => exact ih (partner.note event state).2
  | clock next ih => exact ⟨_, ih _ (partner.clock state).2⟩

end Dialogue

/-! ## The parts of a build -/

/-- What a store says about both entries of a key. -/
abbrev Finding := Except Error (Option Bytes × Option Bytes)

inductive Asks (key : Cache.Key) : List Call → Finding → Prop
  /-- The tree cannot be got, and nothing else is asked. -/
  | tree (e : Error) : Asks key [.get key.treeEntry (.error e)] (.error e)
  /-- The module cannot be got, whether there is a tree or not. -/
  | module (tree : Option Bytes) (e : Error) :
    Asks key [.get key.treeEntry (.ok tree), .get key.moduleEntry (.error e)] (.error e)
  | both (tree module : Option Bytes) :
    Asks key [.get key.treeEntry (.ok tree), .get key.moduleEntry (.ok module)]
      (.ok (tree, module))

inductive Writes (key : Cache.Key) (tree module : Bytes) : List Call → Prop
  /-- The tree cannot be put, and nothing else is. -/
  | tree (e : Error) : Writes key tree module [.put key.treeEntry tree (.error e)]
  | both (answer : Except Error Unit) :
    Writes key tree module
      [.put key.treeEntry tree (.ok ()), .put key.moduleEntry module answer]

theorem Asks.isPut_eq_false {key : Cache.Key} {calls : List Call} {found : Finding}
    (h : Asks key calls found) : ∀ call ∈ calls, call.isPut = false := by
  cases h <;> simp [Call.isPut]

theorem Writes.isPut_eq_true {key : Cache.Key} {tree module : Bytes} {calls : List Call}
    (h : Writes key tree module calls) : ∀ call ∈ calls, call.isPut = true := by
  cases h <;> simp [Call.isPut]

theorem Asks.key_mem {key : Cache.Key} {calls : List Call} {found : Finding}
    (h : Asks key calls found) :
    ∀ call ∈ calls, call.key = key.treeEntry ∨ call.key = key.moduleEntry := by
  cases h <;> simp [Call.key]

theorem Writes.key_mem {key : Cache.Key} {tree module : Bytes} {calls : List Call}
    (h : Writes key tree module calls) :
    ∀ call ∈ calls, call.key = key.treeEntry ∨ call.key = key.moduleEntry := by
  cases h <;> simp [Call.key]

/-- The answers determine what was found. -/
theorem Asks.unique {key : Cache.Key} {calls : List Call} {found other : Finding}
    (h : Asks key calls found) (k : Asks key calls other) : other = found := by
  cases h <;> cases k <;> rfl

variable {backend : Backend} {request : Request} {calls : List Call}

theorem save_makes {tree : Tree} {key : Cache.Key} {functions : List Composed} {result : Unit}
    (h : (save backend tree key functions).Makes calls result) :
    Writes key (bytesOf tree.toJson) (bytesOf (moduleOf backend tree key functions).toJson)
      calls := by
  unfold save at h
  obtain ⟨answer, rest, rfl, h⟩ := h
  cases answer with
  | error e =>
    obtain ⟨rfl, -⟩ := h
    exact .tree e
  | ok _ =>
    obtain ⟨answer, rest, rfl, h⟩ := h
    cases answer with
    | error e =>
      obtain ⟨rfl, -⟩ := h
      exact .both (.error e)
    | ok _ =>
      obtain ⟨rfl, -⟩ := h
      exact .both (.ok ())

/-! ## The ways of a build -/

def fresh (backend : Backend) (functions : List Composed) : List EntryPoint × Report :=
  (functions.map (·.function.run backend.arithmetic),
    ⟨false, functions.length, casesOf functions, 0⟩)

namespace Request

abbrev cacheKey (request : Request) : Cache.Key := request.key request.geometry

def judge (request : Request) (backend : Backend) : Finding → Except Failure Verdict
  | .error e => Verdict.ofFailure (.error e)
  | .ok (some tree, some module) =>
    inspect backend request.tree request.cacheKey request.roots tree module
  | .ok _ => .ok .missing

/-- The evaluators that are composed because they have not been found. -/
def composed? (request : Request) (backend : Backend) (found : Finding) : Option (List Composed) :=
  match request.judge backend found with
  | .error _ | .ok (.hit _) => none
  | .ok _ => (request.compiled backend).toOption

def outcome (request : Request) (backend : Backend) (found : Finding) :
    Except Failure (List EntryPoint × Report) :=
  match request.judge backend found with
  | .error failure => .error failure
  | .ok (.hit engine) => (collect backend request.roots engine).map (·, ⟨true, 0, 0, 0⟩)
  | .ok _ => (request.compiled backend).map (fresh backend)

abbrev Saves (request : Request) (backend : Backend) (functions : List Composed)
    (puts : List Call) : Prop :=
  Writes request.cacheKey (bytesOf request.tree.toJson)
    (bytesOf (moduleOf backend request.tree request.cacheKey functions).toJson) puts

/-- The calls of a build with a cache. It asks for its entries, and it writes them if and only if it
has composed its evaluators. -/
structure Course (request : Request) (backend : Backend) (gets puts : List Call)
    (found : Finding) : Prop where
  asked : Asks request.cacheKey gets found
  idle : request.composed? backend found = none → puts = []
  saved : ∀ functions, request.composed? backend found = some functions →
    request.Saves backend functions puts

variable {found : Finding} {verdict : Verdict}

theorem composed?_of_miss (judged : request.judge backend found = .ok verdict)
    (miss : ∀ engine, verdict ≠ .hit engine) :
    request.composed? backend found = (request.compiled backend).toOption := by
  cases verdict <;> simp_all [composed?]

theorem outcome_of_miss (judged : request.judge backend found = .ok verdict)
    (miss : ∀ engine, verdict ≠ .hit engine) :
    request.outcome backend found = (request.compiled backend).map (fresh backend) := by
  cases verdict <;> simp_all [outcome]

theorem Course.of_idle {gets : List Call} (asked : Asks request.cacheKey gets found)
    (idle : request.composed? backend found = none) : request.Course backend gets [] found :=
  ⟨asked, fun _ => rfl, by simp [idle]⟩

theorem Course.of_saves {gets puts : List Call} {functions : List Composed}
    (asked : Asks request.cacheKey gets found)
    (composed : request.composed? backend found = some functions)
    (saved : request.Saves backend functions puts) : request.Course backend gets puts found := by
  refine ⟨asked, by simp [composed], fun others same => ?_⟩
  obtain rfl := Option.some.inj (composed.symm.trans same)
  exact saved

def tabled (request : Request) (backend : Backend) (made : Except Failure (Engine × Report)) :
    Except Failure (List EntryPoint × Report) := do
  let (engine, report) ← made
  return (← collect backend request.roots engine, report)

theorem tabled_compiled (pos : 0 < request.functionDepth) :
    request.tabled backend ((request.compiled backend).map fun functions =>
      (Engine.serving (functions.map Composed.named),
        ⟨false, functions.length, casesOf functions, 0⟩)) =
      (request.compiled backend).map (fresh backend) := by
  cases compiled : request.compiled backend with
  | error failure => rfl
  | ok functions => simp [tabled, collect_compiled pos compiled, fresh]

end Request

theorem consult_makes {result : Except Failure Verdict}
    (h : (consult backend request.tree request.cacheKey request.roots).Makes calls result) :
    ∃ found, Asks request.cacheKey calls found ∧ result = request.judge backend found := by
  unfold consult at h
  obtain ⟨treeAnswer, rest, rfl, h⟩ := h
  cases treeAnswer with
  | error e =>
    obtain ⟨rfl, rfl⟩ := h
    exact ⟨_, .tree e, rfl⟩
  | ok treeBytes =>
    obtain ⟨moduleAnswer, rest, rfl, h⟩ := h
    cases moduleAnswer with
    | error e =>
      obtain ⟨rfl, rfl⟩ := h
      exact ⟨_, .module treeBytes e, rfl⟩
    | ok moduleBytes =>
      have judged : rest = [] ∧
          result = request.judge backend (.ok (treeBytes, moduleBytes)) := by
        cases treeBytes <;> cases moduleBytes <;> exact h
      obtain ⟨rfl, rfl⟩ := judged
      exact ⟨_, .both treeBytes moduleBytes, rfl⟩

theorem engineFor_makes (pos : 0 < request.functionDepth) (cached : request.cached = true)
    {result : Except Failure (Engine × Report)}
    (h : (engineFor backend request request.geometry request.roots).Makes calls result) :
    ∃ gets puts found, calls = gets ++ puts ∧ request.Course backend gets puts found ∧
      request.tabled backend result = request.outcome backend found := by
  simp only [engineFor, cached, if_true] at h
  obtain ⟨gets, verdict, puts, consulted, h, rfl⟩ := Dialogue.makes_bind h
  obtain ⟨found, asked, judged⟩ := consult_makes consulted
  refine ⟨gets, puts, found, rfl, ?_⟩
  cases verdict with
  | error failure =>
    obtain ⟨rfl, rfl⟩ := h
    have idle : request.composed? backend found = none := by simp [Request.composed?, ← judged]
    exact ⟨.of_idle asked idle, by simp [Request.tabled, Request.outcome, ← judged]⟩
  | ok verdict =>
    simp only [Dialogue.makes_reportAll] at h
    split at h
    · next engine =>
      obtain ⟨rfl, rfl⟩ := h
      have idle : request.composed? backend found = none := by simp [Request.composed?, ← judged]
      refine ⟨.of_idle asked idle, ?_⟩
      simp only [Request.tabled, Request.outcome, ← judged, ok_bind]
      cases collect backend request.roots engine <;> rfl
    · next miss =>
      obtain ⟨silent, emitted, puts, made, h, rfl⟩ := Dialogue.makes_bind h
      obtain ⟨rfl, rfl⟩ := (emitAll_yields pos).makes made
      have composed := Request.composed?_of_miss judged.symm miss
      rw [Request.outcome_of_miss judged.symm miss, ← Request.tabled_compiled pos]
      cases compiled : request.compiled backend with
      | error failure =>
        rw [compiled] at composed h
        obtain ⟨rfl, rfl⟩ := h
        exact ⟨.of_idle asked composed, rfl⟩
      | ok functions =>
        rw [compiled] at composed h
        obtain ⟨written, _, last, saved, ⟨rfl, rfl⟩, rfl⟩ := Dialogue.makes_bind h
        rw [List.append_nil, List.nil_append]
        exact ⟨.of_saves asked composed (save_makes saved), rfl⟩

/-- Without a cache nothing is asked of the store. -/
theorem engineFor_makes_plain (pos : 0 < request.functionDepth)
    (uncached : request.cached = false) {result : Except Failure (Engine × Report)}
    (h : (engineFor backend request request.geometry request.roots).Makes calls result) :
    calls = [] ∧
      request.tabled backend result = (request.compiled backend).map (fresh backend) := by
  simp only [engineFor, uncached, Bool.false_eq_true, if_false] at h
  obtain ⟨silent, verdict, rest, ⟨rfl, rfl⟩, later, rfl⟩ := Dialogue.makes_bind h
  obtain ⟨silent, emitted, rest, made, last, rfl⟩ := Dialogue.makes_bind later
  obtain ⟨rfl, rfl⟩ := (emitAll_yields pos).makes made
  rw [← Request.tabled_compiled pos]
  cases compiled : request.compiled backend with
  | error failure =>
    rw [compiled] at last
    obtain ⟨rfl, rfl⟩ := last
    exact ⟨rfl, rfl⟩
  | ok functions =>
    rw [compiled] at last
    obtain ⟨rfl, rfl⟩ := last
    exact ⟨rfl, rfl⟩

def Request.resolver (request : Request) (duration : Nat) (made : List EntryPoint × Report) :
    Resolver :=
  ⟨made.1.toArray, .regular request.tree.depth request.functionDepth, request.geometry,
    request.featureCount, { made.2 with duration }⟩

/-- A build refuses its request before it asks anything of the store, or it returns the table that
is to be had. -/
theorem Request.table_of_makes {result : Except Failure Resolver}
    (h : (request.build backend).Makes calls result) :
    (∃ cause, request.check = .error cause ∧ calls = [] ∧
      result = .error (.error (.invalid cause))) ∨
    (request.check = .ok request.geometry ∧ ∃ made duration,
      (engineFor backend request request.geometry request.roots).Makes calls made ∧
        result = (request.tabled backend made).map (request.resolver duration)) := by
  simp only [Request.build, Dialogue.makes_now] at h
  obtain ⟨start, h⟩ := h
  cases checked : request.check with
  | error cause =>
    simp only [checked] at h
    exact .inl ⟨cause, rfl, h⟩
  | ok geometry =>
    obtain ⟨rfl, pos, -, -⟩ := Request.check_eq_ok checked
    simp only [checked, layoutOf_eq pos, Dialogue.makes_report] at h
    obtain ⟨first, made, rest, asked, h, rfl⟩ := Dialogue.makes_bind h
    refine .inr ⟨rfl, made, ?_⟩
    cases made with
    | error failure =>
      obtain ⟨rfl, rfl⟩ := h
      exact ⟨0, by simpa using asked, rfl⟩
    | ok made =>
      obtain ⟨engine, report⟩ := made
      dsimp only at h
      cases collected : collect backend request.roots engine with
      | error failure =>
        rw [collected] at h
        obtain ⟨rfl, rfl⟩ := h
        exact ⟨0, by simpa using asked, by simp [tabled, collected]⟩
      | ok table =>
        rw [collected] at h
        obtain ⟨time, rfl, rfl⟩ := h
        exact ⟨time - start, by simpa using asked, by simp [tabled, collected, resolver]⟩

/-- A build with a cache refuses its request, or it takes one of its ways. -/
theorem Request.course_of_makes (cached : request.cached = true)
    {result : Except Failure Resolver} (h : (request.build backend).Makes calls result) :
    (∃ cause, request.check = .error cause ∧ calls = [] ∧
      result = .error (.error (.invalid cause))) ∨
    (request.check = .ok request.geometry ∧ ∃ gets puts found duration, calls = gets ++ puts ∧
      request.Course backend gets puts found ∧
      result = (request.outcome backend found).map (request.resolver duration)) := by
  refine (table_of_makes h).imp_right ?_
  rintro ⟨checked, made, duration, asked, rfl⟩
  obtain ⟨-, pos, -, -⟩ := check_eq_ok checked
  obtain ⟨gets, puts, found, append, course, same⟩ := engineFor_makes pos cached asked
  exact ⟨checked, gets, puts, found, duration, append, course, by rw [same]⟩

/-! ## The effect on the store -/

namespace Request

variable {found : Finding} {functions : List Composed}

/-- Findings end the build, or they are the evaluators, or the evaluators have to be composed. -/
theorem outcome_cases (request : Request) (backend : Backend) (found : Finding) :
    (∃ failure, request.judge backend found = .error failure ∧
      request.outcome backend found = .error failure ∧
      request.composed? backend found = none) ∨
    (∃ engine, request.judge backend found = .ok (.hit engine) ∧
      request.outcome backend found =
        (collect backend request.roots engine).map (·, ⟨true, 0, 0, 0⟩) ∧
      request.composed? backend found = none) ∨
    (request.outcome backend found = (request.compiled backend).map (fresh backend) ∧
      request.composed? backend found = (request.compiled backend).toOption) := by
  cases judged : request.judge backend found with
  | error failure =>
    exact .inl ⟨failure, rfl, by simp [outcome, judged], by simp [composed?, judged]⟩
  | ok verdict =>
    by_cases hit : ∃ engine, verdict = .hit engine
    · obtain ⟨engine, rfl⟩ := hit
      exact .inr (.inl ⟨engine, rfl, by simp [outcome, judged], by simp [composed?, judged]⟩)
    · have miss : ∀ engine, verdict ≠ .hit engine := fun engine same => hit ⟨engine, same⟩
      exact .inr (.inr ⟨outcome_of_miss judged miss, composed?_of_miss judged miss⟩)

/-- Where something is composed, it is returned. -/
theorem outcome_of_composed (h : request.composed? backend found = some functions) :
    request.compiled backend = .ok functions ∧
      request.outcome backend found = .ok (fresh backend functions) := by
  obtain ⟨_, -, -, idle⟩ | ⟨_, -, -, idle⟩ | ⟨returned, chosen⟩ :=
    outcome_cases request backend found
  · simp [idle] at h
  · simp [idle] at h
  · rw [chosen] at h
    cases compiled : request.compiled backend with
    | error failure => simp [compiled, Except.toOption] at h
    | ok others =>
      obtain rfl : others = functions := by simpa [compiled, Except.toOption] using h
      exact ⟨rfl, by rw [returned, compiled]; rfl⟩

/-- Where nothing is composed there is no result, or the evaluators were found. -/
theorem outcome_of_idle (h : request.composed? backend found = none) :
    (∃ failure, request.outcome backend found = .error failure) ∨
      ∃ table, request.outcome backend found = .ok (table, ⟨true, 0, 0, 0⟩) := by
  obtain ⟨failure, -, failed, -⟩ | ⟨engine, -, hit, -⟩ | ⟨returned, chosen⟩ :=
    outcome_cases request backend found
  · exact .inl ⟨failure, failed⟩
  · rw [hit]
    cases collect backend request.roots engine with
    | error failure => exact .inl ⟨failure, rfl⟩
    | ok table => exact .inr ⟨table, rfl⟩
  · rw [chosen] at h
    cases compiled : request.compiled backend with
    | error failure => exact .inl ⟨failure, by rw [returned, compiled]; rfl⟩
    | ok functions => simp [compiled, Except.toOption] at h

namespace Course

variable {gets puts : List Call}

theorem isPut_eq_true (course : request.Course backend gets puts found) :
    ∀ call ∈ puts, call.isPut = true := by
  cases composed : request.composed? backend found with
  | none => simp [course.idle composed]
  | some functions => exact (course.saved functions composed).isPut_eq_true

/-- The calls that put nothing are those with which the entries are asked for. -/
theorem filter_append (course : request.Course backend gets puts found) :
    (gets ++ puts).filter (fun call => !call.isPut) = gets := by
  have noPut := course.asked.isPut_eq_false
  have allPut := course.isPut_eq_true
  rw [List.filter_append, List.filter_eq_self.2 (by simpa using noPut),
    List.filter_eq_nil_iff.2 (by simpa using allPut), List.append_nil]

theorem key_mem (course : request.Course backend gets puts found) : ∀ call ∈ gets ++ puts,
    call.key = request.cacheKey.treeEntry ∨ call.key = request.cacheKey.moduleEntry := by
  intro call member
  rcases List.mem_append.1 member with got | put
  · exact course.asked.key_mem call got
  · cases composed : request.composed? backend found with
    | none => simp [course.idle composed] at put
    | some functions => exact (course.saved functions composed).key_mem call put

end Course

end Request

def isCorruption : Error → Bool
  | .corrupt _ _ => true
  | _ => false

/-- What a build does with the entries that it gets, and what it puts. -/
structure Request.Effect (request : Request) (backend : Backend) (gets puts : List Call)
    (result : Except Failure Resolver) : Prop where
  /-- The tree is asked for and then, also if there is none, the module. -/
  asked : ∃ found, Asks request.cacheKey gets found ∧ ∀ e, found = .error e →
    -- The first error ends the build, which returns it as it is. Only if the store itself has found
    -- an entry to be corrupt, the build goes on without it.
    if isCorruption e then
      result.map Resolver.undated = (request.compiled backend).map
        fun functions => request.resolver 0 (fresh backend functions)
    else result = .error (.error e)
  /-- A build that fails puts nothing. -/
  failed : ∀ failure, result = .error failure → puts = []
  /-- A build that finds its evaluators puts nothing. -/
  hit : ∀ resolver, result = .ok resolver → resolver.report.cacheHit = true → puts = []
  /-- Any other build puts its tree and, if and only if that succeeds, its module. -/
  composed : ∀ resolver, result = .ok resolver → resolver.report.cacheHit = false →
    ∃ functions, compose request.tree request.geometry request.chooser = .ok functions ∧
      request.Saves backend functions puts

/-- What a build with a cache does to its store. -/
structure Request.Orderly (request : Request) (backend : Backend) (calls : List Call)
    (result : Except Failure Resolver) : Prop where
  /-- A request without a geometry is refused before the store is asked for anything. -/
  shapeless : ∀ cause,
    Geometry.of request.tree.depth request.functionDepth request.switchDepth = .error cause →
      calls = [] ∧ result = .error (.error (.invalid cause))
  /-- So is a request with too few features. -/
  narrow : ∀ geometry,
    Geometry.of request.tree.depth request.functionDepth request.switchDepth = .ok geometry →
    request.featureCount < request.tree.requiredFeatures →
      calls = [] ∧ result = .error (.error (.invalid
        (.missingFeature request.tree.maxFeature request.featureCount)))
  /-- Any other request gets some entries first and then puts some. -/
  valid : ∀ geometry,
    Geometry.of request.tree.depth request.functionDepth request.switchDepth = .ok geometry →
    request.tree.requiredFeatures ≤ request.featureCount →
      ∃ gets puts, calls = gets ++ puts ∧ request.Effect backend gets puts result
  /-- No entry of another key is touched. -/
  own : ∀ call ∈ calls,
    call.key = request.cacheKey.treeEntry ∨ call.key = request.cacheKey.moduleEntry
  /-- The result does not depend on what the puts are answered: every store that answers the gets
  in the same way gives the same. -/
  indifferent : ∀ {τ : Type} (other : Partner (StateM τ)) (start : τ),
    ((request.build backend).transcript other start).filter (fun call => !call.isPut) =
      calls.filter (fun call => !call.isPut) →
    ((request.build backend).run other start).1.map Resolver.undated =
      result.map Resolver.undated

theorem Request.Course.effect {gets puts : List Call} {found : Finding}
    (course : request.Course backend gets puts found) (pos : 0 < request.functionDepth)
    (duration : Nat) : request.Effect backend gets puts
      ((request.outcome backend found).map (request.resolver duration)) where
  asked := by
    refine ⟨found, course.asked, ?_⟩
    rintro e rfl
    cases e with
    | corrupt entry cause =>
      have judged : request.judge backend (.error (.corrupt entry cause)) =
        .ok (.corrupt entry cause) := rfl
      rw [outcome_of_miss judged (by simp)]
      cases request.compiled backend <;> rfl
    | _ => rfl
  failed failure failed := by
    cases composed : request.composed? backend found with
    | none => exact course.idle composed
    | some functions => simp [(outcome_of_composed composed).2, Except.map] at failed
  hit resolver done hit := by
    cases composed : request.composed? backend found with
    | none => exact course.idle composed
    | some functions =>
      rw [(outcome_of_composed composed).2] at done
      obtain rfl := Except.ok.inj done
      simp [Request.resolver, fresh] at hit
  composed resolver done missed := by
    cases composed : request.composed? backend found with
    | none =>
      obtain ⟨failure, failed⟩ | ⟨table, found⟩ := outcome_of_idle composed
      · simp [failed, Except.map] at done
      · rw [found] at done
        obtain rfl := Except.ok.inj done
        simp [Request.resolver] at missed
    | some functions =>
      exact ⟨functions, compose_of_compiled pos (outcome_of_composed composed).1,
        course.saved functions composed⟩

theorem Request.undated_outcome (found : Finding) (duration : Nat) :
    ((request.outcome backend found).map (request.resolver duration)).map Resolver.undated =
      (request.outcome backend found).map (request.resolver 0) := by
  cases request.outcome backend found <;> rfl

/-- What a build gets determines what it returns. -/
theorem Request.undated_eq_of_gets (cached : request.cached = true) {others : List Call}
    {result other : Except Failure Resolver} (made : (request.build backend).Makes calls result)
    (remade : (request.build backend).Makes others other)
    (same : others.filter (fun call => !call.isPut) = calls.filter (fun call => !call.isPut)) :
    other.map Resolver.undated = result.map Resolver.undated := by
  rcases course_of_makes cached made with
    ⟨cause, refused, -, rfl⟩ | ⟨checked, gets, puts, found, duration, rfl, course, rfl⟩ <;>
  rcases course_of_makes cached remade with
    ⟨cause', refused', -, rfl⟩ | ⟨checked', gets', puts', found', duration', rfl, course', rfl⟩
  · obtain rfl := Except.error.inj (refused.symm.trans refused')
    rfl
  · simp [refused] at checked'
  · simp [checked] at refused'
  · rw [course.filter_append, course'.filter_append] at same
    obtain rfl := course.asked.unique (same ▸ course'.asked)
    rw [undated_outcome, undated_outcome]

theorem Request.refused_of_check (cached : request.cached = true)
    {result : Except Failure Resolver} (made : (request.build backend).Makes calls result)
    {cause : Invalid} (refused : request.check = .error cause) :
    calls = [] ∧ result = .error (.error (.invalid cause)) := by
  obtain ⟨other, same, rfl, rfl⟩ | ⟨checked, -⟩ := course_of_makes cached made
  · obtain rfl := Except.error.inj (refused.symm.trans same)
    exact ⟨rfl, rfl⟩
  · simp [refused] at checked

/-- Whatever a store answers, a build with a cache refuses what it cannot build before it asks for
anything, gets its own two entries and nothing else, writes them only if it has composed its
evaluators, and does not care whether they could be written. -/
theorem build_calls (backend : Backend) {request : Request} (cached : request.cached = true)
    {σ : Type} (partner : Partner (StateM σ)) (state : σ) :
    request.Orderly backend ((request.build backend).transcript partner state)
      ((request.build backend).run partner state).1 := by
  have made := Dialogue.makes_run partner (request.build backend) state
  constructor
  case shapeless =>
    intro cause refused
    exact Request.refused_of_check cached made (by simp [Request.check, refused])
  case narrow =>
    intro geometry shaped narrow
    exact Request.refused_of_check cached made (by simp [Request.check, shaped, narrow])
  case valid =>
    intro geometry shaped enough
    rcases Request.course_of_makes cached made with
      ⟨cause, refused, -⟩ | ⟨checked, gets, puts, found, duration, append, course, result⟩
    · simp [Request.check, shaped, Nat.not_lt.2 enough] at refused
    · obtain ⟨-, pos, -, -⟩ := Request.check_eq_ok checked
      exact ⟨gets, puts, append, result ▸ course.effect pos duration⟩
  case own =>
    rcases Request.course_of_makes cached made with
      ⟨cause, -, silent, -⟩ | ⟨-, gets, puts, found, duration, append, course, -⟩
    · simp [silent]
    · rw [append]
      exact course.key_mem
  case indifferent =>
    intro τ other start same
    exact Request.undated_eq_of_gets cached made (Dialogue.makes_run other _ start) same

def cachedSample : Request := { sampleRequest with cached := true }

/-- A partner that has no entries and cannot keep any. -/
def readOnly : Partner (StateM Nat) :=
  { idle with put := fun _ _ => pure (.error (.io .isDirectory)) }

theorem build_calls_readOnly :
    ((cachedSample.build .standard).run readOnly 0).1.isOk = true ∧
    cachedSample.Orderly .standard ((cachedSample.build .standard).transcript readOnly 0)
      ((cachedSample.build .standard).run readOnly 0).1 :=
  ⟨by decide +kernel, build_calls .standard rfl readOnly 0⟩

/-- A partner that has found every entry to be corrupt. -/
def wary : Partner (StateM Nat) :=
  { idle with get := fun key => pure (.error (.corrupt key .header)) }

/-- An error with which the tree cannot be got is not always returned. -/
theorem build_of_corruption : ∃ e rest,
    (cachedSample.build .standard).transcript wary 0 =
      .get cachedSample.cacheKey.treeEntry (.error e) :: rest ∧
    ((cachedSample.build .standard).run wary 0).1.isOk = true :=
  ⟨_, _, rfl, by decide +kernel⟩

end Build

end Arbor
