import Arbor.Error
import Arbor.Evaluator.Code
import Arbor.Geometry

/-!
# Events of a build

What a build tells about its progress.
-/

namespace Arbor.Build

/-- A step of a build. Durations are in milliseconds. -/
inductive Event where
  | started (geometry : Geometry) (featureCount functions : Nat)
  | cacheHit (entry : String)
  | cacheMiss (entry : String)
  | cacheStale (entry : String)
  | cacheStored (entry : String)
  | cacheCorrupt (entry : String) (cause : CorruptCause)
  | cacheWriteFailed (entry : String) (error : Error)
  | functionComposed (root : Nat) (stats : Evaluator.Stats)
  | composed (functions cases duration : Nat)
  | compiled (functions duration : Nat)
  | collected (functions : Nat)
  | finished (fromCache : Bool) (emittedFunctions duration : Nat)
deriving DecidableEq, Repr, Inhabited

end Arbor.Build
