import Arbor.Compile
import Arbor.Files
import Arbor.Proofs.Build.Accepted
import Arbor.Proofs.Chunking

/-!
# Compiling a tree

Settings are adapted to a tree before it is compiled. Whatever they are, the chunking that comes out
is valid for the tree, so that nothing but the feature count can be refused. It is a word of 32
bits, which is too small for the features of a tree that reads the last one.

## Main statements

* `Config.adapt_eq_ok`, `Config.adapt_eq_error`: what becomes of settings.
* `Config.build_of_valid`: valid settings for a tree give a resolver of the tree.
* `Config.compile_adapts`: which trees can be compiled, and what the resolver is.
* `Config.geometry_of_compile`: the geometry of a resolver, also if it comes from a cache.
* `Config.compile_functionDepth`: when functions are not deeper than configured.
-/

namespace Arbor

open Build

namespace Config

/-! ## Settings -/

theorem validate_eq_ok {config : Config} :
    config.validate = .ok () ↔ config.featureCount ≠ 0 ∧
      Geometry.of config.treeDepth.toNat config.functionDepth.toNat config.switchDepth.toNat =
        .ok ⟨config.treeDepth.toNat, config.functionDepth.toNat, config.switchDepth.toNat⟩ := by
  unfold validate geometry
  split
  · next featureless => simp [featureless]
  · next counted =>
    cases shaped : Geometry.of config.treeDepth.toNat config.functionDepth.toNat
      config.switchDepth.toNat with
    | error cause => simp [Except.mapError, Except.map]
    | ok geometry =>
      obtain ⟨rfl, -⟩ := Geometry.of_eq_ok.1 shaped
      simp [Except.mapError, Except.map, counted]

/-- The chunking that settings have after they were adapted to a tree. -/
def chunkingFor (config : Config) (tree : Tree) : Nat × Nat :=
  match Geometry.of tree.depth config.functionDepth.toNat config.switchDepth.toNat with
  | .ok _ => (config.functionDepth.toNat, config.switchDepth.toNat)
  | .error _ =>
    fallbackChunking tree.depth config.functionDepth.toNat config.switchDepth.toNat

def adapted (config : Config) (tree : Tree) : Config :=
  { config with
    treeDepth := tree.depth.toUInt32
    featureCount := (max config.featureCount.toNat tree.requiredFeatures).toUInt32
    functionDepth := (config.chunkingFor tree).1.toUInt32
    switchDepth := (config.chunkingFor tree).2.toUInt32 }

section adapt

variable (config : Config) (tree : Tree)

theorem toNat_depth : tree.depth.toUInt32.toNat = tree.depth := by
  have := tree.depth_le
  simp only [maxTreeDepth] at this
  exact UInt32.toNat_ofNat_of_lt' (by rw [UInt32.size]; omega)

theorem toNat_featureCount (fits : tree.requiredFeatures < 2 ^ 32) :
    (max config.featureCount.toNat tree.requiredFeatures).toUInt32.toNat =
      max config.featureCount.toNat tree.requiredFeatures :=
  UInt32.toNat_ofNat_of_lt' (Nat.max_lt.2 ⟨config.featureCount.toNat_lt, fits⟩)

/-- The chunking for a tree is valid and fits the words of settings. -/
theorem chunkingFor_valid :
    Geometry.of tree.depth (config.chunkingFor tree).1 (config.chunkingFor tree).2 =
        .ok ⟨tree.depth, (config.chunkingFor tree).1, (config.chunkingFor tree).2⟩ ∧
      (config.chunkingFor tree).1 < 2 ^ 32 ∧ (config.chunkingFor tree).2 < 2 ^ 32 := by
  unfold chunkingFor
  split
  · next shaped =>
    obtain ⟨rfl, -⟩ := Geometry.of_eq_ok.1 shaped
    exact ⟨shaped, config.functionDepth.toNat_lt, config.switchDepth.toNat_lt⟩
  · obtain ⟨functions, switches⟩ := @fallbackChunking_le tree.depth config.functionDepth.toNat
      config.switchDepth.toNat tree.depth_pos
    have depth := tree.depth_le
    simp only [maxTreeDepth, maxSwitchDepth] at depth switches
    exact ⟨fallbackChunking_valid tree.depth_pos tree.depth_le _ _, by omega, by omega⟩

/-- Settings for a tree are valid if its features can be counted in 32 bits. -/
theorem validate_adapted (fits : tree.requiredFeatures < 2 ^ 32) :
    (config.adapted tree).validate = .ok () := by
  obtain ⟨shaped, functions, switches⟩ := config.chunkingFor_valid tree
  refine validate_eq_ok.2 ⟨?_, ?_⟩
  · rw [ne_eq, ← UInt32.toNat_inj, adapted, toNat_featureCount config tree fits]
    simp [Tree.requiredFeatures]
  · simp only [adapted, toNat_depth]
    rw [show (config.chunkingFor tree).1.toUInt32.toNat = (config.chunkingFor tree).1 from
        UInt32.toNat_ofNat_of_lt' functions,
      show (config.chunkingFor tree).2.toUInt32.toNat = (config.chunkingFor tree).2 from
        UInt32.toNat_ofNat_of_lt' switches]
    exact shaped

theorem adapt_eq_ok (fits : tree.requiredFeatures < 2 ^ 32) :
    config.adapt tree = .ok (config.adapted tree) := by
  unfold adapt
  extract_lets features base
  have own : base.validate = .ok () ↔
      Geometry.of tree.depth config.functionDepth.toNat config.switchDepth.toNat =
        .ok ⟨tree.depth, config.functionDepth.toNat, config.switchDepth.toNat⟩ := by
    rw [validate_eq_ok]
    simp only [base, toNat_depth, ne_eq, and_iff_right_iff_imp]
    intro
    rw [← UInt32.toNat_inj, toNat_featureCount config tree fits]
    simp [Tree.requiredFeatures]
  have chunked : base.rechunk tree.depth = .ok (config.adapted tree) := by
    cases shaped : Geometry.of tree.depth config.functionDepth.toNat config.switchDepth.toNat with
    | ok geometry =>
      obtain ⟨rfl, -⟩ := Geometry.of_eq_ok.1 shaped
      simp [rechunk, own.2 shaped, base, adapted, chunkingFor, shaped, features]
    | error cause =>
      cases refused : base.validate with
      | ok => simp [own.1 refused] at shaped
      | error =>
        simp [rechunk, refused, Bounded.fallbackChunking_eq tree.depth_pos, base, adapted,
          chunkingFor, shaped, features]
  rw [chunked, lift_ok, ok_bind, validate_adapted config tree fits]
  rfl

theorem adapt_eq_error (wide : 2 ^ 32 ≤ tree.requiredFeatures) :
    config.adapt tree = .error (.error (.invalid (.wrapped .noFeatures))) := by
  have most := tree.maxFeature_lt (Nat.two_pow_pos 32) fun node _ => node.feature.toNat_lt
  have zero : (max config.featureCount.toNat tree.requiredFeatures).toUInt32 = 0 := by
    have : max config.featureCount.toNat tree.requiredFeatures = 2 ^ 32 := by
      have := config.featureCount.toNat_lt
      rw [Tree.requiredFeatures] at wide ⊢
      omega
    rw [this]
    rfl
  simp [adapt, rechunk, validate, zero, Bounded.fallbackChunking_eq tree.depth_pos]

end adapt

/-! ## Builds -/

def requestFor (config : Config) (tree : Tree) : Request :=
  ⟨tree, config.featureCount.toNat, config.functionDepth.toNat, config.switchDepth.toNat, none,
    config.cacheDir.isSome⟩

variable {config : Config} {tree : Tree} {σ : Type}

theorem request_eq (depth : config.treeDepth.toNat = tree.depth) :
    config.request tree = .ok (config.requestFor tree) := by
  simp [request, requestFor, depth]

/-- With valid settings for a tree and without a cache, a build succeeds. -/
theorem build_of_valid {host : Host (StateM σ)} (accepts : host.backend.AcceptsEmitted)
    (uncached : config.cacheDir = none) (depth : config.treeDepth.toNat = tree.depth)
    (valid : config.validate = .ok ())
    (enough : tree.requiredFeatures ≤ config.featureCount.toNat) (note : Event → StateM σ Unit)
    (state : σ) :
    ∃ resolver after, (config.build host note tree).run state = (.ok resolver, after) ∧
      (config.requestFor tree).Fulfilled host.backend.arithmetic resolver := by
  obtain ⟨-, shaped⟩ := validate_eq_ok.1 valid
  rw [depth] at shaped
  have plain : (config.requestFor tree).cached = false := by simp [requestFor, uncached]
  unfold build
  simp only [request_eq depth]
  exact Request.build_accepted accepts plain shaped enough (Request.chooser_exhausts rfl shaped) _
    state

/-- Whatever the settings are, a tree is compiled with them, unless its features are too many to be
counted in 32 bits. The chunking of the settings is kept if and only if it suits the tree. -/
theorem compile_adapts {host : Host (StateM σ)} (accepts : host.backend.AcceptsEmitted)
    (precise : host.backend.arithmetic.Exact) (uncached : config.cacheDir = none) (tree : Tree)
    (note : Event → StateM σ Unit) (state : σ) :
    (tree.requiredFeatures < 2 ^ 32 → ∃ resolver after,
      (config.compile host note tree).run state = (.ok resolver, after) ∧
      resolver.geometry.treeDepth = tree.depth ∧
      resolver.featureCount = max config.featureCount.toNat tree.requiredFeatures ∧
      (∀ geometry, Geometry.of tree.depth config.functionDepth.toNat config.switchDepth.toNat =
        .ok geometry → resolver.geometry = geometry) ∧
      (∀ cause, Geometry.of tree.depth config.functionDepth.toNat config.switchDepth.toNat =
        .error cause →
          (resolver.geometry.functionDepth, resolver.geometry.switchDepth) =
            fallbackChunking tree.depth config.functionDepth.toNat config.switchDepth.toNat ∧
          resolver.geometry ≠
            ⟨tree.depth, config.functionDepth.toNat, config.switchDepth.toNat⟩) ∧
      ∀ memory : Evaluator.Memory,
        max config.featureCount.toNat tree.requiredFeatures ≤ memory.features.size →
          ∃ leaf, resolver.run memory tree = .ok leaf ∧
            tree.interpret memory.features = .ok leaf) ∧
    (2 ^ 32 ≤ tree.requiredFeatures → (config.compile host note tree).run state =
      (.error (.error (.invalid (.wrapped .noFeatures))), state)) := by
  refine ⟨fun fits => ?_, fun wide => ?_⟩
  · obtain ⟨shaped, functions, switches⟩ := config.chunkingFor_valid tree
    have count := toNat_featureCount config tree fits
    have enough : tree.requiredFeatures ≤ (config.adapted tree).featureCount.toNat :=
      (Nat.le_max_right _ _).trans_eq count.symm
    obtain ⟨resolver, after, built, fulfilled⟩ := @build_of_valid (config.adapted tree) tree σ host
      accepts uncached (toNat_depth tree) (validate_adapted config tree fits) enough note state
    have geometry : resolver.geometry =
        ⟨tree.depth, (config.chunkingFor tree).1, (config.chunkingFor tree).2⟩ := by
      rw [fulfilled.geometry_eq]
      simp only [Request.geometry, requestFor, adapted, Geometry.mk.injEq, true_and]
      exact ⟨UInt32.toNat_ofNat_of_lt' functions, UInt32.toNat_ofNat_of_lt' switches⟩
    refine ⟨resolver, after, ?_, by rw [geometry], fulfilled.featureCount_eq.trans count,
      ?_, ?_, ?_⟩
    · simpa [compile, adapt_eq_ok config tree fits] using built
    · intro own kept
      obtain ⟨rfl, -⟩ := Geometry.of_eq_ok.1 kept
      rw [geometry, chunkingFor, kept]
    · intro cause refused
      refine ⟨by rw [geometry, chunkingFor, refused], fun same => ?_⟩
      -- what was built is valid, so it is not what was refused
      rw [geometry, Geometry.mk.injEq] at same
      rw [same.2.1, same.2.2, refused] at shaped
      cases shaped
    · intro memory long
      exact fulfilled.run_eq precise (count.trans_le long) rfl
  · have refused := adapt_eq_error config tree wide
    simp only [compile, refused]
    rfl

/-- A chunking that suits no tree. -/
theorem compile_adapts_unsuited : ∃ resolver after,
    (compile Machine.host (fun _ => pure ()) { functionDepth := 0xffffffff, switchDepth := 2 }
      sampleTree).run {} = (.ok resolver, after) ∧
    (resolver.geometry.functionDepth, resolver.geometry.switchDepth) = (3, 1) ∧
    resolver.featureCount = 16 ∧
    ∃ leaf, resolver.run { features := Array.replicate 16 0.5 } sampleTree = .ok leaf ∧
      sampleTree.interpret (Array.replicate 16 0.5) = .ok leaf := by
  have fits : sampleTree.requiredFeatures < 2 ^ 32 := by decide
  obtain ⟨resolver, after, built, -, count, -, fallback, runs⟩ :=
    (@compile_adapts { functionDepth := 0xffffffff, switchDepth := 2 } Machine Machine.host
      Evaluator.Backend.acceptsEmitted_standard Evaluator.Backend.exact_standard rfl sampleTree
      (fun _ => pure ()) {}).1 fits
  refine ⟨resolver, after, built, ?_, count,
    runs { features := Array.replicate 16 0.5 } (by decide)⟩
  exact (fallback (.treeMultiple 3 0xffffffff) (by decide)).1

def lastFeatureTree : Tree :=
  ⟨#[⟨0xffffffff, .bypass, .lessThan, 0.0⟩], 1, rfl, Nat.one_pos, Nat.le_of_ble_eq_true rfl⟩

/-- No settings can count the features of such a tree. -/
theorem compile_lastFeature :
    ((compile Machine.host (fun _ => pure ()) {} lastFeatureTree).run {}).1 =
      .error (.error (.invalid (.wrapped .noFeatures))) := by
  rfl

/-! ## Depths of functions -/

theorem geometry_of_run {backend : Evaluator.Backend} {request : Request}
    {partner : Partner (StateM σ)} {state after : σ} {resolver : Resolver}
    (built : ((request.build backend).run partner).run state = (.ok resolver, after)) :
    resolver.geometry = request.geometry := by
  have made := Dialogue.makes_run partner (request.build backend) state
  rw [show ((request.build backend).run partner state).1 = .ok resolver from
    congrArg Prod.fst built] at made
  obtain ⟨cause, -, -, refused⟩ | ⟨-, engine, duration, -, result⟩ := Request.table_of_makes made
  · cases refused
  · cases tabled : request.tabled backend engine with
    | error =>
      rw [tabled] at result
      cases result
    | ok table =>
      rw [tabled] at result
      rw [Except.ok.inj result, Request.resolver]

/-- Whatever is found in the store, a resolver has the chunking that the settings have after they
were adapted. -/
theorem geometry_of_compile {host : Host (StateM σ)} {note : Event → StateM σ Unit}
    {state after : σ} {resolver : Resolver}
    (compiled : (config.compile host note tree).run state = (.ok resolver, after)) :
    resolver.geometry =
      ⟨tree.depth, (config.chunkingFor tree).1, (config.chunkingFor tree).2⟩ := by
  unfold compile at compiled
  by_cases fits : tree.requiredFeatures < 2 ^ 32
  · have described := @request_eq (config.adapted tree) tree (toNat_depth tree)
    simp only [adapt_eq_ok config tree fits, build, described] at compiled
    obtain ⟨-, functions, switches⟩ := config.chunkingFor_valid tree
    rw [geometry_of_run compiled]
    simp only [Request.geometry, requestFor, adapted, Geometry.mk.injEq, true_and]
    exact ⟨UInt32.toNat_ofNat_of_lt' functions, UInt32.toNat_ofNat_of_lt' switches⟩
  · simp only [adapt_eq_error config tree (Nat.not_lt.1 fits)] at compiled
    cases compiled

section chunkingFor

variable (positive : 1 ≤ config.functionDepth.toNat)
include positive

theorem chunkingFor_of_lt (deeper : config.functionDepth.toNat < config.switchDepth.toNat)
    (narrow : config.switchDepth.toNat ≤ maxSwitchDepth)
    (divides : config.switchDepth.toNat ∣ tree.depth) :
    config.chunkingFor tree = (config.switchDepth.toNat, config.switchDepth.toNat) := by
  unfold chunkingFor
  split
  · next shaped =>
    obtain ⟨-, -, -, -, -, steps⟩ := Geometry.of_eq_ok.1 shaped
    have := Nat.le_of_dvd positive steps
    omega
  · exact fallbackChunking_of_lt tree.depth_pos deeper narrow divides

theorem chunkingFor_le
    (other : ¬ (config.functionDepth.toNat < config.switchDepth.toNat ∧
      config.switchDepth.toNat ≤ maxSwitchDepth ∧ config.switchDepth.toNat ∣ tree.depth)) :
    (config.chunkingFor tree).1 ≤ config.functionDepth.toNat := by
  unfold chunkingFor
  split
  · exact Nat.le_refl _
  · exact fallbackFunction_le tree.depth_pos positive other

end chunkingFor

/-- Functions are not deeper than configured, unless they are to be less deep than the switches, and
these are kept. Then a function is a single switch. -/
theorem compile_functionDepth (positive : 1 ≤ config.functionDepth.toNat)
    {host : Host (StateM σ)} {note : Event → StateM σ Unit} {state after : σ} {resolver : Resolver}
    (compiled : (config.compile host note tree).run state = (.ok resolver, after)) :
    (resolver.geometry.functionDepth ≤ config.functionDepth.toNat ↔
      ¬ (config.functionDepth.toNat < config.switchDepth.toNat ∧
        config.switchDepth.toNat ≤ 4 ∧ config.switchDepth.toNat ∣ tree.depth)) ∧
    (config.functionDepth.toNat < config.switchDepth.toNat → config.switchDepth.toNat ≤ 4 →
      config.switchDepth.toNat ∣ tree.depth → resolver.geometry =
        ⟨tree.depth, config.switchDepth.toNat, config.switchDepth.toNat⟩) := by
  rw [geometry_of_compile compiled]
  refine ⟨⟨?_, chunkingFor_le positive⟩, fun deeper narrow divides => ?_⟩
  · rintro shallow ⟨deeper, narrow, divides⟩
    rw [chunkingFor_of_lt positive deeper narrow divides] at shallow
    exact Nat.not_le.2 deeper shallow
  · rw [chunkingFor_of_lt positive deeper narrow divides]

/-- Functions of four levels do not fill three levels, and switches of two levels neither. -/
theorem compile_functionDepth_default : ∃ resolver after,
    (compile Machine.host (fun _ => pure ()) {} sampleTree).run {} = (.ok resolver, after) ∧
    resolver.geometry.functionDepth ≤ 4 := by
  obtain ⟨resolver, after, compiled⟩ := exists_of_isOk
    (show ((compile Machine.host (fun _ => pure ()) {} sampleTree).run {}).1.isOk = true by
      decide +kernel)
  exact ⟨resolver, after, compiled,
    (compile_functionDepth (by decide) compiled).1.2 (by decide)⟩

/-- Switches of three levels are kept, although functions should have one level. -/
theorem compile_deeper : ∃ resolver after,
    (compile Machine.host (fun _ => pure ()) { functionDepth := 1, switchDepth := 3 }
      sampleTree).run {} = (.ok resolver, after) ∧
    1 < resolver.geometry.functionDepth := by
  obtain ⟨resolver, after, compiled⟩ := exists_of_isOk
    (show ((compile Machine.host (fun _ => pure ()) { functionDepth := 1, switchDepth := 3 }
      sampleTree).run {}).1.isOk = true by decide +kernel)
  refine ⟨resolver, after, compiled, ?_⟩
  rw [geometry_of_compile compiled]
  decide

end Config

end Arbor
