import Arbor.Cache.Memory
import Arbor.Proofs.Build.Faithful
import Arbor.Proofs.Cache.Key
import Arbor.Proofs.Cache.Module
import Arbor.Proofs.Tree.Equality
import Mathlib.Logic.Function.Basic

/-!
# Builders that share a store

Any number of builders talk to one store in memory. Each of them can be anywhere in its build, and
whichever moves next takes one step: it gets an entry, puts one, reports or reads its clock. The
store can refuse a get or a put, and then it stays as it is. A builder that is never chosen again
has stopped.

The tree entry is shared by all chunkings of a depth and a feature count, so both entries that a
builder finds can come from different builders. What makes a hit safe nonetheless is that a module
holds its own tree. `Written` describes the entries that builders leave behind, and it is the
invariant of every run.

## Main definitions

* `Shared`: a store and what is left of every build.
* `Shared.step`, `Shared.run`: one move, and a schedule of moves.
* `Written`: the entries that builders put.

## Main statements

* `usable_written`: whoever finds such entries can use them on a hit.
* `Shared.Sound.step`, `Shared.Sound.run`: every schedule keeps up the invariant.
* `run_eq_interpret_of_shared`: whatever a builder obtains runs as its own tree is interpreted.
-/

namespace Arbor

open Build

/-- A put changes the entry of its name only. -/
theorem Cache.Memory.get?_put_of_ne (memory : Memory) {key other : String} (h : other ≠ key)
    (bytes : Bytes) : (memory.put key bytes).get? other = memory.get? other := by
  have others : ∀ entries : List (String × Bytes),
      (entries.filter (·.1 != key)).lookup other = entries.lookup other := by
    intro entries
    induction entries with
    | nil => rfl
    | cons entry rest ih =>
      obtain ⟨name, contents⟩ := entry
      by_cases same : name = key <;> grind
  grind [get?, put]

namespace Build

open Evaluator

variable {ι : Type} [DecidableEq ι]

/-- A store and what is left of the builds that talk to it. -/
structure Shared (ι : Type) where
  store : Cache.Memory
  rest : ι → Dialogue (Except Failure Resolver)

/-- A move of one builder: what its clock would show, and the error that the store would answer. -/
structure Move (ι : Type) where
  builder : ι
  time : Nat := 0
  failure : Option Error := none

namespace Shared

def start (backend : Backend) (requests : ι → Request) : Shared ι :=
  ⟨{}, fun i => (requests i).build backend⟩

def advance (state : Shared ι) (i : ι) (next : Dialogue (Except Failure Resolver)) : Shared ι :=
  { state with rest := Function.update state.rest i next }

/-- One move. A builder that is done has none. -/
def step (state : Shared ι) (move : Move ι) : Shared ι :=
  match state.rest move.builder, move.failure with
  | .done _, _ => state
  | .get key next, none => state.advance move.builder (next (.ok (state.store.get? key)))
  | .get _ next, some e => state.advance move.builder (next (.error e))
  | .put key bytes next, none =>
    { state.advance move.builder (next (.ok ())) with store := state.store.put key bytes }
  | .put _ _ next, some e => state.advance move.builder (next (.error e))
  | .note _ next, _ => state.advance move.builder next
  | .clock next, _ => state.advance move.builder (next move.time)

def run (state : Shared ι) (schedule : List (Move ι)) : Shared ι := schedule.foldl step state

end Shared

/-! ## The entries that builders leave behind -/

inductive Written (backend : Backend) : String → Bytes → Prop
  | tree (request : Request) :
    Written backend (request.key request.geometry).treeEntry (bytesOf request.tree.toJson)
  | module {request : Request} {functions : List Composed} (pos : 0 < request.functionDepth)
    (composed : compose request.tree request.geometry request.chooser = .ok functions) :
    Written backend (request.key request.geometry).moduleEntry
      (bytesOf (moduleOf backend request.tree (request.key request.geometry) functions).toJson)

/-- The key of a request determines its boundary nodes. -/
theorem Request.roots_congr {request other : Request}
    (key : request.key request.geometry = other.key other.geometry) :
    request.roots = other.roots :=
  congrArg (fun key : Cache.Key =>
    (Layout.regular key.geometry.treeDepth key.geometry.functionDepth).nodes) key

/-- Evaluators that suit a request suit every request with the same key and an equal tree. -/
theorem Request.Suits.of_key_eq {request other : Request} {arithmetic : Arithmetic}
    {table : List EntryPoint} (suits : request.Suits arithmetic table)
    (key : request.key request.geometry = other.key other.geometry)
    (equal : (request.tree == other.tree) = true) : other.Suits arithmetic table := by
  obtain ⟨source, alike, emitted⟩ := suits
  have depth : request.functionDepth = other.functionDepth :=
    congrArg (fun key : Cache.Key => key.geometry.functionDepth) key
  exact ⟨source, alike.trans (.of_beq equal), depth ▸ Request.roots_congr key ▸ emitted⟩

theorem usable_written {backend : Backend} (legible : backend.Legible) (request : Request) :
    request.Usable backend (Written backend) := by
  intro treeBytes moduleBytes engine _ found hit table collected
  obtain ⟨-, cached, read, key, equal, symbols, loaded⟩ := inspect_eq_hit_iff.1 hit
  generalize name : (request.key request.geometry).moduleEntry = entry at found
  cases found with
  | tree other => exact absurd name.symm (Cache.Key.treeEntry_ne_moduleEntry _ _)
  | @module other functions pos composed =>
    obtain rfl := Cache.Module.eq_of_ofJson read
    have depth : other.functionDepth = request.functionDepth :=
      congrArg (fun key : Cache.Key => key.geometry.functionDepth) key
    obtain ⟨parsed, texts, table⟩ := collect_of_engineOf (depth ▸ pos) symbols loaded
    obtain ⟨others, same, entries⟩ := parseAll_moduleOf legible
      (Request.emitted_of_compose pos composed) other.tree (other.key other.geometry)
    obtain rfl := Except.ok.inj (same.symm.trans texts)
    rw [table, entries] at collected
    obtain rfl := Except.ok.inj collected
    exact (Request.suits_of_compose pos composed backend.arithmetic).of_key_eq key equal

theorem puts_written (backend : Backend) (request : Request) :
    request.Puts backend (Written backend) :=
  fun pos composed => ⟨.tree request, .module pos composed⟩

/-! ## The invariant -/

namespace Shared

/-- Every entry was put by a build, and every build goes on to put such entries only and to obtain a
resolver that fulfils its request. -/
structure Sound (backend : Backend) (requests : ι → Request) (state : Shared ι) : Prop where
  entries : ∀ key bytes, state.store.get? key = some bytes → Written backend key bytes
  rest : ∀ i, (state.rest i).Keeps (Written backend) fun result =>
    ∀ resolver, result = .ok resolver → (requests i).Fulfilled backend.arithmetic resolver

variable {backend : Backend} {requests : ι → Request} {state : Shared ι}

omit [DecidableEq ι] in
theorem sound_start (legible : backend.Legible) (requests : ι → Request) :
    Sound backend requests (start backend requests) where
  entries key bytes found := by simp [start, Cache.Memory.get?] at found
  rest i := (Request.build_keeps fun _ => puts_written backend _).mono
    fun _ fulfilled resolver obtained =>
      fulfilled resolver obtained fun _ _ => usable_written legible _

theorem Sound.advance (sound : Sound backend requests state) {i : ι}
    {next : Dialogue (Except Failure Resolver)}
    (kept : next.Keeps (Written backend) fun result =>
      ∀ resolver, result = .ok resolver → (requests i).Fulfilled backend.arithmetic resolver) :
    Sound backend requests (state.advance i next) where
  entries := sound.entries
  rest j := by
    by_cases same : j = i
    · subst same
      simpa [Shared.advance] using kept
    · simpa [Shared.advance, same] using sound.rest j

omit [DecidableEq ι] in
theorem Sound.put (sound : Sound backend requests state) {key : String} {bytes : Bytes}
    (written : Written backend key bytes) :
    Sound backend requests { state with store := state.store.put key bytes } where
  entries other contents found := by
    by_cases same : other = key
    · subst same
      rw [Cache.Memory.get?_put_self] at found
      exact Option.some.inj found ▸ written
    · rw [Cache.Memory.get?_put_of_ne _ same] at found
      exact sound.entries other contents found
  rest := sound.rest

theorem Sound.step (sound : Sound backend requests state) (move : Move ι) :
    Sound backend requests (state.step move) := by
  obtain ⟨builder, time, failure⟩ := move
  have kept := sound.rest builder
  unfold Shared.step
  cases left : state.rest builder with
  | done result => exact sound
  | get key next =>
    rw [left] at kept
    cases failure with
    | none =>
      refine sound.advance (kept _ fun bytes found => ?_)
      exact sound.entries key bytes (Except.ok.inj found)
    | some error => exact sound.advance (kept _ (by simp))
  | put key bytes next =>
    rw [left] at kept
    cases failure with
    | none => exact (sound.put kept.1).advance (kept.2 _)
    | some error => exact sound.advance (kept.2 _)
  | note event next =>
    rw [left] at kept
    exact sound.advance kept
  | clock next =>
    rw [left] at kept
    exact sound.advance (kept time)

theorem Sound.run (sound : Sound backend requests state) (schedule : List (Move ι)) :
    Sound backend requests (state.run schedule) := by
  induction schedule generalizing state with
  | nil => exact sound
  | cons move rest ih => exact ih (sound.step move)

/-- Whatever a builder obtains fulfils its request. -/
theorem fulfilled_of_run (legible : backend.Legible) {schedule : List (Move ι)} {i : ι}
    {resolver : Resolver}
    (built : ((start backend requests).run schedule).rest i = .done (.ok resolver)) :
    (requests i).Fulfilled backend.arithmetic resolver := by
  have kept := ((sound_start legible requests).run schedule).rest i
  rw [built] at kept
  exact kept resolver rfl

end Shared

/-- Builders share a store that was empty at first. Whatever the schedule, and whichever gets and
puts fail, a resolver that a builder obtains runs every feature vector to the leaf that the tree of
this builder is interpreted to. -/
theorem run_eq_interpret_of_shared {backend : Backend} (precise : backend.arithmetic.Exact)
    (legible : backend.Legible) {requests : ι → Request} {schedule : List (Move ι)} {i : ι}
    {resolver : Resolver}
    (built : ((Shared.start backend requests).run schedule).rest i = .done (.ok resolver))
    {memory : Memory} (long : (requests i).featureCount ≤ memory.features.size) :
    ∃ leaf, resolver.run memory (requests i).tree = .ok leaf ∧
      (requests i).tree.interpret memory.features = .ok leaf :=
  (Shared.fulfilled_of_run legible built).run_eq precise long rfl

/-- Two trees that are equal but not the same: they differ in the sign of a zero. -/
def signedTree (negative : Bool) : Tree where
  nodes := #[⟨0, .bypass, .lessThan, if negative then -0.0 else 0.0⟩]
  depth := 1
  size_eq := rfl
  depth_pos := by decide
  depth_le := by decide

def signedRequest (negative : Bool) : Request where
  tree := signedTree negative
  featureCount := 1
  functionDepth := 1
  switchDepth := 1
  selector := none
  cached := true

/-- The first builder stops after its second put, between two moves of the other one. -/
def signedSchedule : List (Move Bool) :=
  List.replicate 2 ⟨true, 0, none⟩ ++ List.replicate 14 ⟨false, 5, none⟩ ++
    List.replicate 6 ⟨true, 3, none⟩

theorem exists_of_hit {left : Dialogue (Except Failure Resolver)}
    (h : (match left with
      | .done (.ok resolver) => resolver.report.cacheHit
      | _ => false) = true) :
    ∃ resolver, left = .done (.ok resolver) ∧ resolver.report.cacheHit = true := by
  split at h
  · exact ⟨_, rfl, h⟩
  · cases h

theorem run_eq_interpret_of_shared_signed : ∃ resolver,
    ((Shared.start .standard signedRequest).run signedSchedule).rest true =
      .done (.ok resolver) ∧
    resolver.report.cacheHit = true ∧
    ∃ leaf, resolver.run { features := #[-0.0] } (signedTree true) = .ok leaf ∧
      (signedTree true).interpret #[-0.0] = .ok leaf := by
  obtain ⟨resolver, built, hit⟩ := exists_of_hit
    (show (match ((Shared.start .standard signedRequest).run signedSchedule).rest true with
      | .done (.ok resolver) => resolver.report.cacheHit
      | _ => false) = true by decide +kernel)
  exact ⟨resolver, built, hit, @run_eq_interpret_of_shared _ _ _ Backend.exact_standard
    Backend.legible_standard _ _ _ _ built { features := #[-0.0] } (by decide)⟩

end Build

end Arbor
