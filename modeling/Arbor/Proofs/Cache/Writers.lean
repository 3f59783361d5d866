import Arbor.Proofs.Cache.Place

/-!
# Writers that share a directory

Processes store entries in one directory at the same time. Each of them runs the same program,
which asks for one service of the machine after the other. Between any two requests of a writer
others may go on, a writer may stop for good, and a request may fail for any reason. A file is not
written at once, so others may also find the first bytes of it only.

## Main definitions

* `Script`: a program as a tree of its requests, and `Script.host`, which makes programs into trees.
* `World`: the files, the writers and what they have moved so far.
* `World.step`, `World.run`: what a move does, and what a list of moves does.
* `World.lookup`, `latest`: what is found for a key, and what was moved there last.
-/

namespace Arbor.Cache.Directory

open Build (Bytes)

/-- A program that asks a machine for services: its requests, with what follows each reply. -/
inductive Script (α : Type) where
  | done (result : α)
  | read (path : String) (next : Except IoFault Bytes → Script α)
  | write (path : String) (bytes : Bytes) (next : Except IoFault Unit → Script α)
  | makeDirs (path : String) (next : Except IoFault Unit → Script α)
  | rename (source target : String) (next : Except IoFault Unit → Script α)
  | fresh (next : String → Script α)
  | clock (next : Nat → Script α)
  | out (text : String) (next : Unit → Script α)
  | err (text : String) (next : Unit → Script α)

namespace Script

variable {α β : Type}

def bind (script : Script α) (next : α → Script β) : Script β :=
  match script with
  | done result => next result
  | read path rest => .read path fun reply => (rest reply).bind next
  | write path bytes rest => .write path bytes fun reply => (rest reply).bind next
  | makeDirs path rest => .makeDirs path fun reply => (rest reply).bind next
  | rename source target rest => .rename source target fun reply => (rest reply).bind next
  | fresh rest => .fresh fun reply => (rest reply).bind next
  | clock rest => .clock fun reply => (rest reply).bind next
  | out text rest => .out text fun reply => (rest reply).bind next
  | err text rest => .err text fun reply => (rest reply).bind next

instance : Monad Script where
  pure := done
  bind := bind

def host : Host Script where
  read path := .read path .done
  write path bytes := .write path bytes .done
  makeDirs path := .makeDirs path .done
  rename source target := .rename source target .done
  fresh := .fresh .done
  clock := .clock .done
  out text := .out text .done
  err text := .err text .done

end Script

structure Writer where
  process : Nat
  key : String
  bytes : Bytes
  /-- What is left to be done. -/
  rest : Script (Except Error Unit)
  /-- The text that makes the name of its temporary file unique, once it has one. -/
  text : Option String := none

namespace Writer

variable (writer : Writer)

def Succeeded : Prop := writer.rest = .done (.ok ())

instance : Decidable writer.Succeeded :=
  match rest : writer.rest with
  | .done (.ok ()) => isTrue rest
  | .done (.error _) | .read .. | .write .. | .makeDirs .. | .rename .. | .fresh _ | .clock _
  | .out .. | .err .. => isFalse (by simp [Succeeded, rest])

theorem not_succeeded {writer : Writer} {script : Script (Except Error Unit)}
    (rest : writer.rest = script) (unfinished : script ≠ .done (.ok ())) : ¬ writer.Succeeded :=
  fun succeeded => unfinished (rest.symm.trans succeeded)

end Writer

structure World where
  files : Files
  writers : List Writer := []
  /-- How many unique texts each process was given. -/
  given : Nat → Nat := fun _ => 0
  /-- The keys and the bytes of the entries that were moved to their places, the latest first. -/
  moved : List (String × Bytes) := []

inductive Move where
  /-- A process starts to store an entry. -/
  | start (process : Nat) (key : String) (bytes : Bytes)
  /-- A writer gets the reply to its next request. -/
  | advance (writer : Nat)
  /-- The next request of a writer fails. -/
  | refuse (writer : Nat) (cause : IoFault)
  /-- The first bytes of what a writer is about to write are in the file. -/
  | spill (writer count : Nat)

/-- The bytes that were moved to the place of a key last. -/
def latest (directory : String) (moved : List (String × Bytes)) (key : String) : Option Bytes :=
  (moved.find? fun entry => placeOf directory entry.1 = placeOf directory key).map (·.2)

namespace World

variable (directory : String) (world : World)

def resume (index : Nat) (writer : Writer) (rest : Script (Except Error Unit)) : World :=
  { world with writers := world.writers.set index { writer with rest } }

def issue (process : Nat) : World :=
  { world with given := fun other => world.given other + if other = process then 1 else 0 }

def record (writer : Writer) (files : Files) : World :=
  { world with files, moved := (writer.key, writer.bytes) :: world.moved }

def change (index : Nat) (writer : Writer) (outcome : Except IoFault Files)
    (next : Except IoFault Unit → Script (Except Error Unit)) : World :=
  match outcome with
  | .error cause => world.resume index writer (next (.error cause))
  | .ok files => { world with files }.resume index writer (next (.ok ()))

def reply (index : Nat) (writer : Writer) : World :=
  match writer.rest with
  | .done _ => world
  | .read path next => world.resume index writer (next (world.files.read path))
  | .write path bytes next => world.change index writer (world.files.write path bytes) next
  | .makeDirs path next => world.change index writer (world.files.makeDirs path) next
  | .rename source target next =>
    match world.files.rename source target with
    | .error cause => world.resume index writer (next (.error cause))
    | .ok files => (world.record writer files).resume index writer (next (.ok ()))
  | .fresh next =>
    let text := uniqueText writer.process (world.given writer.process)
    (world.issue writer.process).resume index { writer with text := some text } (next text)
  | .clock next => world.resume index writer (next 0)
  | .out _ next | .err _ next => world.resume index writer (next ())

/-- The next request of a writer fails, if it is one that can. -/
def refuse (index : Nat) (writer : Writer) (cause : IoFault) : World :=
  match writer.rest with
  | .read _ next => world.resume index writer (next (.error cause))
  | .write _ _ next | .makeDirs _ next | .rename _ _ next =>
    world.resume index writer (next (.error cause))
  | _ => world

/-- The first bytes of what a writer is about to write. -/
def spill (writer : Writer) (count : Nat) : World :=
  match writer.rest with
  | .write path bytes _ =>
    match world.files.write path (bytes.take count) with
    | .error _ => world
    | .ok files => { world with files }
  | _ => world

def step (move : Move) : World :=
  match move with
  | .start process key bytes =>
    { world with writers :=
        world.writers ++ [⟨process, key, bytes, put Script.host directory key bytes, none⟩] }
  | .advance index =>
    match world.writers[index]? with
    | none => world
    | some writer => world.reply index writer
  | .refuse index cause =>
    match world.writers[index]? with
    | none => world
    | some writer => world.refuse index writer cause
  | .spill index count =>
    match world.writers[index]? with
    | none => world
    | some writer => world.spill writer count

def run (moves : List Move) : World := moves.foldl (step directory) world

def keyOf? : Move → Option String
  | .start _ key _ => some key
  | .advance index | .refuse index _ | .spill index _ => world.writers[index]?.map (·.key)

def lookup (key : String) : Except Error (Option Bytes) :=
  ((get Machine.host directory key).run { files := world.files }).1

end World

end Arbor.Cache.Directory
