import Arbor.Host

/-!
# Files as a value

A directory tree as a map from paths to files and directories, with the operations of a file system
on it. Paths are relative to the top directory, which always exists.

## Main definitions

* `Files.read`, `Files.write`, `Files.rename`, `Files.makeDirs`, `Files.remove`, `Files.list`.
* `Machine`: files together with what was printed, and a `Host` on it.
-/

namespace Arbor

inductive FileEntry where
  | file (bytes : List UInt8)
  | directory
deriving DecidableEq, Repr, Inhabited

abbrev Location := List String

/-- A directory tree. The top directory is not listed. -/
structure Files where
  entries : List (Location × FileEntry) := []
deriving DecidableEq, Repr, Inhabited

namespace Files

/-- The names in a path. Slashes separate them; empty names and single dots do not count. -/
def names (path : String) : List String :=
  ((path.toList.splitOn '/').map String.ofList).filter fun name => name ≠ "" ∧ name ≠ "."

/-- The location that a name leads to. A double dot leads back up. -/
def enter (above : Location) (name : String) : Location :=
  if name = ".." then above.dropLast else above ++ [name]

/-- Paths are passed on as texts that end at a zero, so they have none inside. -/
def IsPath (path : String) : Prop := '\x00' ∉ path.toList

instance (path : String) : Decidable (IsPath path) := inferInstanceAs (Decidable (_ ∉ _))

def longestName : Nat := 255

variable (files : Files)

def get? (path : Location) : Option FileEntry :=
  if path.isEmpty then some .directory else files.entries.lookup path

def put (path : Location) (entry : FileEntry) : Files :=
  ⟨(path, entry) :: files.entries.filter (·.1 != path)⟩

def erase (path : Location) : Files := ⟨files.entries.filter (·.1 != path)⟩

/-- Follows names from a location on. Every location on the way has to be a directory. -/
def follow (above : Location) : (names : List String) → Except IoFault Location
  | [] => .ok above
  | name :: rest =>
    match files.get? above with
    | none => .error .notFound
    | some (.file _) => .error .notDirectory
    | some .directory =>
      if longestName < name.utf8ByteSize then .error .nameTooLong
      else follow (enter above name) rest

def locate (path : String) : Except IoFault Location :=
  if ¬ IsPath path then .error .nulInPath
  else if path.isEmpty then .error .notFound
  else files.follow [] (names path)

def read (path : String) : Except IoFault (List UInt8) := do
  match files.get? (← files.locate path) with
  | none => throw .notFound
  | some .directory => throw .isDirectory
  | some (.file bytes) => return bytes

def store (location : Location) (bytes : List UInt8) : Except IoFault Files :=
  match files.get? location with
  | some .directory => .error .isDirectory
  | _ => .ok (files.put location (.file bytes))

def write (path : String) (bytes : List UInt8) : Except IoFault Files := do
  files.store (← files.locate path) bytes

def makeDirsFrom (files : Files) (above : Location) : (names : List String) → Except IoFault Files
  | [] => .ok files
  | name :: rest => do
    let location ← files.follow above [name]
    match files.get? location with
    | some .directory => makeDirsFrom files location rest
    | some (.file _) => throw (if rest.isEmpty then .alreadyExists else .notDirectory)
    | none => makeDirsFrom (files.put location .directory) location rest

def makeDirs (path : String) : Except IoFault Files :=
  if ¬ IsPath path then .error .nulInPath else files.makeDirsFrom [] (names path)

def rename (source target : String) : Except IoFault Files := do
  if ¬ IsPath target then throw .nulInPath
  let bytes ← files.read source
  (files.erase (← files.locate source)).store (← files.locate target) bytes

def remove (path : String) : Except IoFault Files := do
  let _ ← files.read path
  return files.erase (← files.locate path)

/-- The names in a directory, in increasing order; none if there is no such directory. -/
def list (path : String) : List String :=
  match files.follow [] (names path) with
  | .error _ => []
  | .ok above =>
    let found := files.entries.filterMap fun (entry, _) =>
      if entry.dropLast = above then entry.getLast? else none
    found.mergeSort (fun a b => decide (a ≤ b))

end Files

/-- A machine as a value: its files, what was printed, and how many fresh texts it gave out. -/
structure Machine where
  files : Files := {}
  out : String := ""
  err : String := ""
  given : Nat := 0

namespace Machine

def change (operation : Files → Except IoFault Files) : StateM Machine (Except IoFault Unit) := do
  let machine ← get
  match operation machine.files with
  | .error cause => return .error cause
  | .ok files =>
    set { machine with files }
    return .ok ()

def host : Host (StateM Machine) where
  read path := return (← get).files.read path
  write path bytes := change (·.write path bytes)
  makeDirs path := change (·.makeDirs path)
  rename source target := change (·.rename source target)
  fresh := do
    let given := (← get).given
    modify fun machine => { machine with given := given + 1 }
    return uniqueText 0 given
  clock := return 0
  out text := modify fun machine => { machine with out := machine.out ++ text }
  err text := modify fun machine => { machine with err := machine.err ++ text }

end Machine

end Arbor
