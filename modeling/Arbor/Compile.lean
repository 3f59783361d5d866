import Arbor.Cache.Directory
import Arbor.Config

/-!
# Compiling a tree

Resolvers from a tree and settings, with the cache directory of the settings on a host.
-/

namespace Arbor.Config

variable {m : Type → Type} [Monad m] (host : Host m) (note : Build.Event → m Unit)

def build (config : Config) (tree : Tree) : m (Except Failure Resolver) := do
  match config.request tree with
  | .error cause => return .error (.error (.invalid cause))
  | .ok request =>
    (request.build host.backend).run (Cache.Directory.partner host config.cacheDir note)

/-- Builds the resolver of a tree with settings that are adapted to it first. -/
def compile (config : Config) (tree : Tree) : m (Except Failure Resolver) := do
  match config.adapt tree with
  | .error failure => return .error failure
  | .ok adapted => adapted.build host note tree

end Arbor.Config
