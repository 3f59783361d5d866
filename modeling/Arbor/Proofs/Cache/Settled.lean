import Arbor.Proofs.Cache.Writers

/-!
# What storing an entry does to the files

Storing an entry makes the directory, takes a fresh text, writes a temporary file and moves it to
the place of the entry. Each of these requests changes the files in its own way, and all of them
keep what the files say about the entries.

## Main definitions

* `naming`, `writing`, `moving`: what is left of a program that stores an entry, step by step.
* `Settled`: each place holds what was moved there last, and what else is new is a directory or a
  temporary file.

## Main statements

* `put_eq`: storing an entry is these steps.
* `Settled.makeDirs`, `Settled.write`, `Settled.rename`: each request keeps `Settled`.
-/

namespace Arbor.Cache.Directory

open Build (Bytes)
open Files

variable {directory : String}

/-! ## The steps of a writer -/

def proceed (next : Script (Except Error Unit)) : Except IoFault Unit → Script (Except Error Unit)
  | .error cause => .done (.error (.io cause))
  | .ok () => next

def temporaryPath (directory key text : String) : String :=
  pathOf directory (key ++ "." ++ text ++ ".tmp")

/-- What is left once the temporary file was written. -/
def moving (directory key text : String) : Script (Except Error Unit) :=
  .rename (temporaryPath directory key text) (pathOf directory key) (proceed (.done (.ok ())))

def writing (directory key : String) (bytes : Bytes) (text : String) :
    Script (Except Error Unit) :=
  .write (temporaryPath directory key text) bytes (proceed (moving directory key text))

def naming (directory key : String) (bytes : Bytes) : Script (Except Error Unit) :=
  .fresh (writing directory key bytes)

theorem put_eq (key : String) (bytes : Bytes) : put Script.host directory key bytes =
    .makeDirs directory (proceed (naming directory key bytes)) := by
  refine congrArg (Script.makeDirs directory) (funext fun reply => ?_)
  cases reply with
  | error => rfl
  | ok =>
    refine congrArg Script.fresh (funext fun text => ?_)
    refine congrArg (Script.write _ bytes) (funext fun reply => ?_)
    cases reply with
    | error => rfl
    | ok =>
      refine congrArg (Script.rename _ _) (funext fun reply => ?_)
      cases reply <;> rfl

theorem temporaryPath_eq (key text : String) :
    temporaryPath directory key text = pathOf directory (key ++ temporaryEnd text) := by
  simp only [temporaryPath, temporaryEnd, String.append_assoc]

theorem target_temporaryPath (key text : String) :
    target (temporaryPath directory key text) = temporaryOf directory key text := by
  rw [temporaryPath_eq, temporaryOf, placeOf]

/-! ## The files -/

section temporary

variable {files after : Files} {key text : String} {bytes : Bytes}

theorem get?_of_written (written : files.write (temporaryPath directory key text) bytes = .ok after)
    (location : Location) : after.get? location =
      if location = temporaryOf directory key text then some (.file bytes)
      else files.get? location := by
  rw [get?_of_write written, target_temporaryPath]

theorem get?_of_moved (whole : files.get? (temporaryOf directory key text) = some (.file bytes))
    (renamed : files.rename (temporaryPath directory key text) (pathOf directory key) = .ok after)
    (location : Location) : after.get? location =
      if location = placeOf directory key then some (.file bytes)
      else if location = temporaryOf directory key text then none else files.get? location := by
  obtain ⟨found, holds, -, left⟩ := get?_of_rename renamed
  rw [target_temporaryPath, whole, Option.some.injEq, FileEntry.file.injEq] at holds
  rw [left, target_temporaryPath, holds, placeOf]

end temporary

def fileAt (files : Files) (location : Location) : Option Bytes :=
  match files.get? location with
  | some (.file bytes) => some bytes
  | _ => none

/-- All directories on the way to the directory are there. -/
def Made (directory : String) (files : Files) : Prop :=
  ∀ location ∈ way [] (names directory), files.get? location = some .directory

def Free (directory : String) (files : Files) : Prop :=
  ∀ location ∈ way [] (names directory), ∀ bytes, files.get? location ≠ some (.file bytes)

theorem Made.keeps {files after : Files} (made : Made directory files) (keeps : files.Keeps after) :
    Made directory after :=
  fun location member => keeps location (made location member)

/-- A path into the directory can be followed once it was made. -/
theorem locate_of_made {files : Files} {key : String} (made : Made directory files)
    (folder : IsPath directory) (isPath : IsPath key) (alone : names key = [key])
    (plain : '/' ∉ key.toList)
    (short : ∀ name ∈ names directory ++ [key], name.utf8ByteSize ≤ longestName) :
    files.locate (pathOf directory key) = .ok (target (pathOf directory key)) := by
  have there : ∀ location ∈ [] :: way [] (names directory),
      files.get? location = some .directory := by
    intro location member
    obtain rfl | member := List.mem_cons.1 member
    · rfl
    · exact made location member
  rw [locate_pathOf folder isPath alone plain, target, names_pathOf alone plain]
  have free : ∀ location ∈ [] :: way [] (names directory), ∀ bytes,
      files.get? location ≠ some (.file bytes) := by
    intro location member bytes
    simp [there location member]
  obtain ⟨-, location, member, missing⟩ | found := follow_of_free free short
  · simp [there location member] at missing
  · exact found

/-- The files hold what was moved last, apart from what was there at the start, and temporary files
that are pending. -/
structure Settled (directory : String) (start files : Files) (moved : List (String × Bytes))
    (pending : Location → Prop) : Prop where
  contents {key : String} (entry : IsEntry key) : fileAt files (placeOf directory key) =
    (latest directory moved key).or (fileAt start (placeOf directory key))
  reached : ∀ entry ∈ moved, Made directory files ∧
    ∃ location, files.locate (pathOf directory entry.1) = .ok location
  free : Free directory start → Free directory files
  folders {location : Location} (folder : files.get? location = some .directory) :
    start.get? location = some .directory ∨ location ∈ way [] (names directory)
  left {location : Location} (present : files.get? location ≠ none) : start.get? location ≠ none ∨
    files.get? location = some .directory ∨
    (∃ key, IsEntry key ∧ location = placeOf directory key) ∨ pending location

namespace Settled

variable {start files after : Files} {moved : List (String × Bytes)} {pending : Location → Prop}
  {key : String} {process count : Nat}

theorem begin (start : Files) : Settled directory start start [] pending where
  contents _ := by simp [latest]
  reached := by simp
  free := id
  folders := .inl
  left := .inl

theorem mono {wider : Location → Prop} (settled : Settled directory start files moved pending)
    (h : ∀ location, pending location → wider location) :
    Settled directory start files moved wider where
  contents := settled.contents
  reached := settled.reached
  free := settled.free
  folders := settled.folders
  left present := (settled.left present).imp_right (.imp_right (.imp_right (h _)))

theorem makeDirs (settled : Settled directory start files moved pending)
    (made : files.makeDirs directory = .ok after) :
    Settled directory start after moved pending := by
  obtain ⟨left, there, -⟩ := makeDirs_spec made
  constructor
  case contents =>
    intro key entry
    rw [← settled.contents entry]
    obtain same | ⟨-, absent, directory⟩ := left (placeOf directory key)
    · rw [fileAt, same, fileAt]
    · rw [fileAt, directory, fileAt, absent]
  case reached =>
    intro entry member
    obtain ⟨-, location, found⟩ := settled.reached entry member
    exact ⟨there, location, locate_of_keeps (keeps_of_makeDirs made) found⟩
  case free =>
    intro _ location member bytes
    simp [there location member]
  case folders =>
    intro location folder
    obtain same | ⟨member, -⟩ := left location
    · rw [same] at folder
      exact settled.folders folder
    · exact .inr member
  case left =>
    intro location present
    obtain same | ⟨-, -, folder⟩ := left location
    · rw [same] at present ⊢
      exact settled.left present
    · exact .inr (.inl folder)

/-- What is written to a temporary file is pending. -/
theorem write (settled : Settled directory start files moved pending) (entry : IsEntry key)
    (made : Made directory files) {bytes : Bytes} (written : files.write
      (temporaryPath directory key (uniqueText process count)) bytes = .ok after) :
    Settled directory start after moved fun location =>
      pending location ∨ location = temporaryOf directory key (uniqueText process count) := by
  have left := get?_of_written written
  constructor
  case contents =>
    intro other otherEntry
    rw [← settled.contents otherEntry, fileAt, left,
      if_neg (placeOf_ne_temporaryOf otherEntry entry process count), fileAt]
  case reached =>
    intro entry member
    obtain ⟨-, location, found⟩ := settled.reached entry member
    exact ⟨made.keeps (keeps_of_write written), location,
      locate_of_keeps (keeps_of_write written) found⟩
  case free =>
    intro _ location member bytes
    simp [keeps_of_write written location (made location member)]
  case folders =>
    intro location folder
    rw [left] at folder
    split at folder
    · cases folder
    · exact settled.folders folder
  case left =>
    intro location present
    rw [left] at present
    split at present
    · next same => exact .inr (.inr (.inr (.inr same)))
    · exact (settled.left present).imp_right (.imp (keeps_of_write written _) (.imp_right .inl))

/-- What was moved is not pending any more. -/
theorem rename (settled : Settled directory start files moved pending) (entry : IsEntry key)
    (made : Made directory files) {bytes : Bytes}
    (whole : files.get? (temporaryOf directory key (uniqueText process count)) =
      some (.file bytes))
    (renamed : files.rename (temporaryPath directory key (uniqueText process count))
      (pathOf directory key) = .ok after) :
    Settled directory start after ((key, bytes) :: moved) fun location =>
      pending location ∧ location ≠ temporaryOf directory key (uniqueText process count) := by
  have keeps := keeps_of_rename renamed
  have left := get?_of_moved whole renamed
  constructor
  case contents =>
    intro other otherEntry
    by_cases same : placeOf directory other = placeOf directory key
    · simp [fileAt, left, same, latest]
    · have same' : placeOf directory key ≠ placeOf directory other := fun h => same h.symm
      have old := settled.contents otherEntry
      rw [fileAt, left, if_neg same, if_neg (placeOf_ne_temporaryOf otherEntry entry process count)]
      simpa [latest, same', fileAt] using old
  case reached =>
    intro entry member
    obtain rfl | member := List.mem_cons.1 member
    · obtain ⟨_, _, reached, _⟩ := rename_eq_ok.1 renamed
      exact ⟨made.keeps keeps, _, locate_of_keeps keeps reached⟩
    · obtain ⟨-, location, found⟩ := settled.reached entry member
      exact ⟨made.keeps keeps, location, locate_of_keeps keeps found⟩
  case free =>
    intro _ location member bytes
    simp [keeps location (made location member)]
  case folders =>
    intro location folder
    rw [left] at folder
    split at folder
    · cases folder
    · split at folder
      · cases folder
      · exact settled.folders folder
  case left =>
    intro location present
    rw [left] at present
    split at present
    · next same => exact .inr (.inr (.inl ⟨key, entry, same⟩))
    · split at present
      · contradiction
      · next other =>
        exact (settled.left present).imp_right (.imp (keeps _) (.imp_right (⟨·, other⟩)))

end Settled

end Arbor.Cache.Directory
