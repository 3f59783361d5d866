import Arbor.Build.Dialogue
import Arbor.Cache.Module
import Arbor.Evaluator.Engine
import Arbor.Resolver

/-!
# Builds

A build makes the resolver of a tree. With a cache it first looks for the evaluators of an earlier
build. They are used only if both entries, the tree and the module, can be read, belong to the key,
hold an equal tree, name exactly the expected functions and every function is readable. Otherwise
the evaluators are composed, and both entries are written. In either case the functions end up in
an engine, from which the table of the resolver is collected.

## Main definitions

* `Request`: what is to be built.
* `Verdict`, `inspect`: what the cached entries are good for.
* `emitAll`: evaluators that are composed and compiled.
* `Request.build`: the build as a dialogue.
-/

namespace Arbor.Build

open Evaluator

/-- What is to be built. Without a selector, subtree switches of the switch depth are emitted. -/
structure Request where
  tree : Tree
  featureCount : Nat
  functionDepth : Nat
  switchDepth : Nat
  selector : Option Selector
  /-- Whether a cache is used. -/
  cached : Bool

def Request.of (tree : Tree) : Request :=
  ⟨tree, tree.requiredFeatures, tree.depth, 1, none, false⟩

def Request.key (request : Request) (geometry : Geometry) : Cache.Key :=
  ⟨geometry, request.featureCount⟩

inductive Verdict where
  /-- An engine with all evaluators. -/
  | hit (engine : Engine)
  /-- An entry is absent. -/
  | missing
  /-- An entry belongs to another tree. -/
  | stale (entry : String)
  | corrupt (key : String) (cause : CorruptCause)

/-- What a failure means. It ends the build, unless an entry was found to be corrupt. -/
def Verdict.ofFailure : Failure → Except Failure Verdict
  | .error (.corrupt entry cause) => .ok (.corrupt entry cause)
  | failure => .error failure

def Verdict.events (key : Cache.Key) : Verdict → List Event
  | hit _ => [.cacheHit key.moduleEntry]
  | missing => [.cacheMiss key.moduleEntry]
  | stale entry => [.cacheStale entry, .cacheMiss key.moduleEntry]
  | corrupt entry cause => [.cacheCorrupt entry cause]

def moduleOf (backend : Backend) (tree : Tree) (key : Cache.Key) (functions : List Composed) :
    Cache.Module :=
  ⟨key, tree, functions.map fun f => ⟨f.symbol, backend.write f.function⟩⟩

def bytesOf (text : String) : Bytes := text.toUTF8.toList

def casesOf (functions : List Composed) : Nat :=
  (functions.map (·.code.stats.cases)).foldr (· + ·) 0

def reportAll : List Event → Dialogue Unit
  | [] => .done ()
  | event :: rest => .note event (reportAll rest)

section

variable (backend : Backend)

def engineOf (functions : List Cache.Function) : Except Failure Engine := do
  let engine ← Engine.start backend
  let ((), engine) ←
    (Engine.load backend (functions.map fun f => (f.symbol, f.code))).outcome engine
  return engine

/-- Judges the bytes of both entries of a key, where evaluators for `roots` are expected. -/
def inspect (tree : Tree) (key : Cache.Key) (roots : List Nat) (treeBytes moduleBytes : Bytes) :
    Except Failure Verdict :=
  match Tree.ofJson treeBytes with
  | .error problem => .ok (.corrupt key.treeEntry problem.toCorruption)
  | .ok cachedTree =>
    if cachedTree != tree then .ok (.stale key.treeEntry)
    else
      match Cache.Module.ofJson moduleBytes with
      | .error cause => .ok (.corrupt key.moduleEntry cause)
      | .ok cached =>
        if cached.key ≠ key then .ok (.corrupt key.moduleEntry .header)
        else if cached.tree != tree then .ok (.stale key.moduleEntry)
        else if cached.functions.map (·.symbol) ≠ roots.map symbolOf then
          .ok (.corrupt key.moduleEntry .symbols)
        else
          match engineOf backend cached.functions with
          | .error failure => Verdict.ofFailure failure
          | .ok engine => .ok (.hit engine)

/-- Asks for both entries of a key, the module also if the tree is absent, and judges them. -/
def consult (tree : Tree) (key : Cache.Key) (roots : List Nat) :
    Dialogue (Except Failure Verdict) := do
  match ← .fetch key.treeEntry with
  | .error e => return Verdict.ofFailure (.error e)
  | .ok treeBytes =>
    match ← .fetch key.moduleEntry with
    | .error e => return Verdict.ofFailure (.error e)
    | .ok moduleBytes =>
      match treeBytes, moduleBytes with
      | some treeBytes, some moduleBytes =>
        return inspect backend tree key roots treeBytes moduleBytes
      | _, _ => return .ok .missing

/-- Writes the tree and then, if that succeeded, the module. -/
def save (tree : Tree) (key : Cache.Key) (functions : List Composed) : Dialogue Unit := do
  let written ← match ← .store key.treeEntry (bytesOf tree.toJson) with
    | .error e => pure (.error e)
    | .ok () => .store key.moduleEntry (bytesOf (moduleOf backend tree key functions).toJson)
  match written with
  | .ok () => .report (.cacheStored key.moduleEntry)
  | .error e => .report (.cacheWriteFailed key.moduleEntry e)

def composeAll (tree : Tree) (functionDepth : Nat) (selector : Selector) :
    (roots : List Nat) → Engine → Dialogue (Except Failure (List Composed × Engine))
  | [], engine => return .ok ([], engine)
  | root :: rest, engine => do
    match (Engine.compose backend tree functionDepth selector root).outcome engine with
    | .error failure => return .error failure
    | .ok ((_, composed), engine) =>
      .report (.functionComposed root composed.code.stats)
      match ← composeAll tree functionDepth selector rest engine with
      | .error failure => return .error failure
      | .ok (others, engine) => return .ok (composed :: others, engine)

def emitAll (request : Request) (geometry : Geometry) (roots : List Nat) :
    Dialogue (Except Failure (List Composed × Engine)) := do
  match Engine.start backend with
  | .error failure => return .error failure
  | .ok engine =>
    let start ← .now
    let selector := request.selector.getD (.uniform geometry.switchDepth)
    match ← composeAll backend request.tree geometry.functionDepth selector roots engine with
    | .error failure => return .error failure
    | .ok (functions, engine) =>
      .report (.composed functions.length (casesOf functions) ((← .now) - start))
      let start ← .now
      match (Engine.submit backend (functions.map Composed.named)).outcome engine with
      | .error failure => return .error failure
      | .ok ((), engine) =>
        .report (.compiled functions.length ((← .now) - start))
        return .ok (functions, engine)

def engineFor (request : Request) (geometry : Geometry) (roots : List Nat) :
    Dialogue (Except Failure (Engine × Report)) := do
  let key := request.key geometry
  let verdict ← if request.cached then consult backend request.tree key roots
    else pure (.ok .missing)
  match verdict with
  | .error failure => return .error failure
  | .ok verdict =>
    if request.cached then reportAll (verdict.events key)
    match verdict with
    | .hit engine => return .ok (engine, ⟨true, 0, 0, 0⟩)
    | _ =>
      match ← emitAll backend request geometry roots with
      | .error failure => return .error failure
      | .ok (functions, engine) =>
        if request.cached then save backend request.tree key functions
        return .ok (engine, ⟨false, functions.length, casesOf functions, 0⟩)

def collect (roots : List Nat) (engine : Engine) : Except Failure (List EntryPoint) := do
  let collecting := roots.mapM fun root => Engine.lookupEvaluator backend (symbolOf root)
  return (← collecting.outcome engine).1

end

/-- The geometry of a request, if the request can be built. -/
def Request.check (request : Request) : Except Invalid Geometry := do
  let geometry ← Geometry.of request.tree.depth request.functionDepth request.switchDepth
  if request.featureCount < request.tree.requiredFeatures then
    throw (.missingFeature request.tree.maxFeature request.featureCount)
  return geometry

def layoutOf (geometry : Geometry) : Except Fault (Layout × List Nat) := do
  let layout ← Layout.of geometry.treeDepth geometry.functionDepth
  return (layout, ← layout.allNodes)

def Request.build (request : Request) (backend : Backend) :
    Dialogue (Except Failure Resolver) := do
  let start ← .now
  match request.check with
  | .error cause => return .error (.error (.invalid cause))
  | .ok geometry =>
    match layoutOf geometry with
    | .error fault => return .error (.fault fault)
    | .ok (layout, roots) =>
      .report (.started geometry request.featureCount roots.length)
      match ← engineFor backend request geometry roots with
      | .error failure => return .error failure
      | .ok (engine, report) =>
        match collect backend roots engine with
        | .error failure => return .error failure
        | .ok table =>
          .report (.collected table.length)
          let report := { report with duration := (← .now) - start }
          .report (.finished report.cacheHit report.emittedFunctions report.duration)
          return .ok ⟨table.toArray, layout, geometry, request.featureCount, report⟩

end Arbor.Build
