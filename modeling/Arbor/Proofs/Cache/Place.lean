import Arbor.Cache.Directory
import Arbor.Proofs.Cache.Key
import Arbor.Proofs.Files
import Mathlib.Data.List.Basic

/-!
# Where entries are

An entry is a file, whose path is its key in a directory. The temporary files that it is written to
first are beside it. Their names do not end like those of entries, and they tell the numbers that
they were made unique with.

## Main definitions

* `IsEntry`, `IsTemporary`: the keys of entries and the names of temporary files.
* `IsName`: the keys that are names in the directory itself.
* `placeOf`: the location of an entry.
* `temporaryOf`: the location of a temporary file.

## Main statements

* `exists_place`: an entry and its temporary files are in one directory.
* `IsName.placeOf_inj`: different names have different places.
* `placeOf_ne_temporaryOf`: no entry is a temporary file.
* `temporaryOf_inj`: temporary files with different numbers are different.
-/

namespace Arbor.Cache.Directory

open Files

def IsEntry (key : String) : Prop := ∃ stem, key = stem ++ ".json"

/-- The keys of entries that are names in the directory itself. -/
structure IsName (key : String) : Prop where
  entry : IsEntry key
  isPath : IsPath key
  plain : '/' ∉ key.toList
  short : key.utf8ByteSize ≤ longestName

def IsTemporary (name : String) : Prop := ∃ stem, name = stem ++ ".tmp"

def placeOf (directory key : String) : Location := target (pathOf directory key)

def temporaryEnd (text : String) : String := "." ++ text ++ ".tmp"

def temporaryOf (directory key text : String) : Location :=
  placeOf directory (key ++ temporaryEnd text)

/-! ## Names -/

theorem exists_last_slash {path : String} (member : '/' ∈ path.toList) :
    ∃ front back, path = front ++ "/" ++ back ∧ '/' ∉ back.toList := by
  obtain ⟨back, front, parts, plain⟩ := List.eq_append_cons_of_mem (List.mem_reverse.2 member)
  refine ⟨String.ofList front.reverse, String.ofList back.reverse, ?_, by simpa using plain⟩
  rw [← String.toList_inj, ← List.reverse_inj, parts]
  simp

theorem five_le_length {name : String} (entry : IsEntry name) (text : String) :
    5 ≤ (name ++ text).toList.length := by
  obtain ⟨stem, rfl⟩ := entry
  simp
  omega

theorem names_of_plain {name text : String} (entry : IsEntry name) (plain : '/' ∉ name.toList)
    (plainText : '/' ∉ text.toList) : names (name ++ text) = [name ++ text] := by
  have long := five_le_length entry text
  apply names_eq_singleton
  · simp [plain, plainText]
  · constructor <;> intro short <;> rw [short] at long <;> exact absurd long (by decide)

/-- The last name of a path, with what is added to it. -/
theorem names_of_isEntry {path : String} (entry : IsEntry path) :
    ∃ front name, IsEntry name ∧ ∀ text, '/' ∉ text.toList →
      names (path ++ text) = front ++ [name ++ text] := by
  obtain ⟨stem, rfl⟩ := entry
  by_cases deep : '/' ∈ stem.toList
  · obtain ⟨front, back, rfl, plain⟩ := exists_last_slash deep
    refine ⟨names front, back ++ ".json", ⟨back, rfl⟩, fun text plainText => ?_⟩
    rw [← names_of_plain ⟨back, rfl⟩ (by simp [plain]) plainText, ← names_append]
    simp only [String.append_assoc]
  · refine ⟨[], stem ++ ".json", ⟨stem, rfl⟩, fun text plainText => ?_⟩
    exact names_of_plain ⟨stem, rfl⟩ (by simp [deep]) plainText

theorem pathOf_append {directory key : String} (named : key ≠ "") (text : String) :
    pathOf directory (key ++ text) = pathOf directory key ++ text := by
  have same : (key ++ text).startsWith "/" = key.startsWith "/" := by
    rw [Bool.eq_iff_iff, String.startsWith_string_iff, String.startsWith_string_iff,
      String.toList_append]
    cases chars : key.toList with
    | nil => exact absurd (String.toList_eq_nil_iff.1 chars) named
    | cons first rest => simp
  simp only [pathOf, same, apply_ite (· ++ text), String.append_assoc]

theorem IsEntry.pathOf {key : String} (entry : IsEntry key) (directory : String) :
    IsEntry (pathOf directory key) := by
  obtain ⟨stem, rfl⟩ := entry
  unfold Directory.pathOf
  split
  · exact ⟨stem, rfl⟩
  · split
    · exact ⟨directory ++ stem, by simp only [String.append_assoc]⟩
    · exact ⟨directory ++ "/" ++ stem, by simp only [String.append_assoc]⟩

theorem IsEntry.ne_empty {key : String} (entry : IsEntry key) : key ≠ "" := by
  obtain ⟨stem, rfl⟩ := entry
  simp

theorem enter_of_isEntry {name : String} (entry : IsEntry name) (above : Location)
    (text : String) : enter above (name ++ text) = above ++ [name ++ text] := by
  have long := five_le_length entry text
  refine if_neg fun up => ?_
  rw [up] at long
  exact absurd long (by decide)

/-- The names on the way to what is in the directory itself. -/
theorem names_pathOf {key : String} (alone : names key = [key]) (plain : '/' ∉ key.toList)
    (directory : String) : names (pathOf directory key) = names directory ++ [key] := by
  have relative : key.startsWith "/" = false := by
    rw [← Bool.not_eq_true, String.startsWith_string_iff]
    exact fun start => plain (start.subset (by simp))
  unfold pathOf
  simp only [relative, Bool.false_eq_true, or_false]
  split
  · next empty =>
    rw [alone, String.isEmpty_iff.1 empty]
    rfl
  · split
    · next slash =>
      rw [String.endsWith_eq_endsWith_toSlice, String.Slice.endsWith_string_iff] at slash
      obtain ⟨front, parts⟩ := slash
      obtain rfl : directory = String.ofList front ++ "/" := by
        rw [← String.toList_inj, String.toList_append, String.toList_ofList, parts]
        simp
      have same : names (String.ofList front ++ "/") = names (String.ofList front) := by
        simpa [names] using names_append (String.ofList front) ""
      rw [names_append, alone, same]
    · rw [names_append, alone]

theorem isPath_pathOf {directory key : String} (folder : IsPath directory) (isPath : IsPath key) :
    IsPath (pathOf directory key) := by
  unfold IsPath at *
  unfold pathOf
  split
  · exact isPath
  · split <;> simp [folder, isPath]

theorem locate_pathOf {directory key : String} (folder : IsPath directory) (isPath : IsPath key)
    (alone : names key = [key]) (plain : '/' ∉ key.toList) (files : Files) :
    files.locate (pathOf directory key) = files.follow [] (names directory ++ [key]) := by
  have parts := names_pathOf alone plain directory
  rw [locate, if_neg (not_not_intro (isPath_pathOf folder isPath)), if_neg, parts]
  intro empty
  rw [String.isEmpty_iff.1 empty] at parts
  simp [names] at parts

namespace IsName

variable {directory key other : String}

theorem alone (name : IsName key) : names key = [key] := by
  simpa using @names_of_plain key "" name.entry name.plain (by simp)

theorem placeOf_eq (name : IsName key) : placeOf directory key = target directory ++ [key] := by
  have last := enter_of_isEntry name.entry (target directory) ""
  rw [String.append_empty] at last
  rw [placeOf, target, names_pathOf name.alone name.plain, List.foldl_append]
  exact last

theorem placeOf_inj (name : IsName key) (another : IsName other)
    (same : placeOf directory key = placeOf directory other) : key = other := by
  rw [name.placeOf_eq, another.placeOf_eq] at same
  exact List.singleton_inj.1 (List.append_cancel_left same)

end IsName

/-- An entry and its temporary files are in one directory. -/
theorem exists_place {key : String} (entry : IsEntry key) (directory : String) :
    ∃ above name, IsEntry name ∧ placeOf directory key = above ++ [name] ∧
      ∀ text, '/' ∉ text.toList → placeOf directory (key ++ text) = above ++ [name ++ text] := by
  obtain ⟨front, name, last, parts⟩ := names_of_isEntry (entry.pathOf directory)
  have placed : ∀ text, '/' ∉ text.toList →
      placeOf directory (key ++ text) = front.foldl enter [] ++ [name ++ text] := by
    intro text plain
    rw [placeOf, pathOf_append entry.ne_empty, target, parts text plain, List.foldl_append]
    exact enter_of_isEntry last _ text
  exact ⟨_, name, last, by simpa using placed "" (by simp), placed⟩

/-! ## Temporary files -/

/-- What follows the last point of a text. -/
theorem append_point_inj {front back rest others : List Char} (hrest : '.' ∉ rest)
    (hothers : '.' ∉ others) (same : front ++ '.' :: rest = back ++ '.' :: others) :
    front = back ∧ rest = others := by
  obtain ⟨between, rfl, h⟩ | ⟨between, rfl, h⟩ := List.append_eq_append_iff.1 same
  · cases between with
    | nil => simpa using h
    | cons first between =>
      rw [List.cons_append, List.cons.injEq] at h
      exact absurd (h.2 ▸ by simp) hrest
  · cases between with
    | nil => simpa [eq_comm] using h
    | cons first between =>
      rw [List.cons_append, List.cons.injEq] at h
      exact absurd (h.2 ▸ by simp) hothers

theorem toList_temporaryEnd (process count : Nat) :
    (temporaryEnd (uniqueText process count)).toList =
      '.' :: (Nat.toDigits 10 process ++ '.' :: (Nat.toDigits 10 count ++ ".tmp".toList)) := by
  simp [temporaryEnd, uniqueText]

theorem not_mem_toDigits {c : Char} (other : c.isDigit = false) (n : Nat) :
    c ∉ Nat.toDigits 10 n := by
  intro member
  rw [Nat.isDigit_of_mem_toDigits (by decide) (by decide) member] at other
  cases other

theorem uniqueText_inj {process count another number : Nat}
    (same : uniqueText process count = uniqueText another number) :
    process = another ∧ count = number := by
  have pointless := not_mem_toDigits (show '.'.isDigit = false by decide)
  have texts : Nat.toDigits 10 process ++ '.' :: Nat.toDigits 10 count =
      Nat.toDigits 10 another ++ '.' :: Nat.toDigits 10 number := by
    simpa [uniqueText] using congrArg String.toList same
  obtain ⟨processes, counts⟩ := append_point_inj (pointless count) (pointless number) texts
  exact ⟨Key.toDigits_inj.1 processes, Key.toDigits_inj.1 counts⟩

theorem plain_temporaryEnd (process count : Nat) :
    '/' ∉ (temporaryEnd (uniqueText process count)).toList := by
  simp [toList_temporaryEnd, not_mem_toDigits]

theorem IsName.isPath_append {key : String} (name : IsName key) (process count : Nat) :
    IsPath (key ++ temporaryEnd (uniqueText process count)) := by
  have isPath : '\x00' ∉ key.toList := name.isPath
  simp [IsPath, toList_temporaryEnd, not_mem_toDigits, isPath]

theorem isTemporary_append (name text : String) : IsTemporary (name ++ temporaryEnd text) :=
  ⟨name ++ "." ++ text, by simp only [temporaryEnd, String.append_assoc]⟩

/-- The last letters are different. -/
theorem IsEntry.not_isTemporary {name : String} (entry : IsEntry name) : ¬ IsTemporary name := by
  rintro ⟨stem, same⟩
  obtain ⟨other, rfl⟩ := entry
  have last := congrArg (·.toList.getLast?) same
  simp at last

section

variable {directory key other : String} (entry : IsEntry key) (otherEntry : IsEntry other)
include entry otherEntry

theorem placeOf_ne_temporaryOf (process count : Nat) :
    placeOf directory key ≠ temporaryOf directory other (uniqueText process count) := by
  obtain ⟨above, name, last, placed, -⟩ := exists_place entry directory
  obtain ⟨beside, near, -, -, placedAt⟩ := exists_place otherEntry directory
  intro same
  rw [placed, temporaryOf, placedAt _ (plain_temporaryEnd process count)] at same
  obtain rfl := List.singleton_inj.1 (List.append_inj' same rfl).2
  exact last.not_isTemporary (isTemporary_append near _)

/-- The numbers of a temporary file can be read off its name. -/
theorem temporaryOf_inj {process count another number : Nat}
    (same : temporaryOf directory key (uniqueText process count) =
      temporaryOf directory other (uniqueText another number)) :
    process = another ∧ count = number := by
  obtain ⟨above, name, -, -, placed⟩ := exists_place entry directory
  obtain ⟨beside, near, -, -, placedAt⟩ := exists_place otherEntry directory
  rw [temporaryOf, placed _ (plain_temporaryEnd _ _), temporaryOf,
    placedAt _ (plain_temporaryEnd _ _)] at same
  have texts := congrArg String.toList (List.singleton_inj.1 (List.append_inj' same rfl).2)
  simp only [String.toList_append, toList_temporaryEnd] at texts
  have shorter : (name.toList ++ '.' :: Nat.toDigits 10 process) ++ '.' :: Nat.toDigits 10 count =
      (near.toList ++ '.' :: Nat.toDigits 10 another) ++ '.' :: Nat.toDigits 10 number := by
    apply List.append_cancel_right
    simpa using texts
  have pointless := not_mem_toDigits (show '.'.isDigit = false by decide)
  obtain ⟨firsts, counts⟩ := append_point_inj (pointless count) (pointless number) shorter
  obtain ⟨-, processes⟩ := append_point_inj (pointless process) (pointless another) firsts
  exact ⟨Key.toDigits_inj.1 processes, Key.toDigits_inj.1 counts⟩

end

end Arbor.Cache.Directory
