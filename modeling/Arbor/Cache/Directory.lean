import Arbor.Build.Dialogue
import Arbor.Duration
import Arbor.Host

/-!
# Stores in a directory

One file for each entry. An entry is written to a temporary file with a fresh name first and then
moved to its place, so a reader never sees half an entry.
-/

namespace Arbor.Cache.Directory

variable {m : Type → Type} [Monad m] (host : Host m) (directory : String)

/-- The path of a name in a directory. An absolute name stands for itself. -/
def pathOf (name : String) : String :=
  if directory.isEmpty ∨ name.startsWith "/" then name
  else if directory.endsWith "/" then directory ++ name
  else directory ++ "/" ++ name

/-- The entry of a name; none if there is no such file. -/
def get (key : String) : m (Except Error (Option Build.Bytes)) := do
  match ← host.read (pathOf directory key) with
  | .ok bytes => return .ok (some bytes)
  | .error .notFound => return .ok none
  | .error cause => return .error (.io cause)

def put (key : String) (bytes : Build.Bytes) : m (Except Error Unit) := do
  match ← host.makeDirs directory with
  | .error cause => return .error (.io cause)
  | .ok () =>
    let temporary := pathOf directory (key ++ "." ++ (← host.fresh) ++ ".tmp")
    match ← host.write temporary bytes with
    | .error cause => return .error (.io cause)
    | .ok () =>
      match ← host.rename temporary (pathOf directory key) with
      | .error cause => return .error (.io cause)
      | .ok () => return .ok ()

def partner (directory : Option String) (note : Build.Event → m Unit) : Build.Partner m where
  get key := match directory with
    | none => return .ok none
    | some directory => get host directory key
  put key bytes := match directory with
    | none => return .ok ()
    | some directory => put host directory key bytes
  note := note
  clock := return Duration.milliseconds (← host.clock)

end Arbor.Cache.Directory
