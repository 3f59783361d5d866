import Arbor.Files
import Arbor.Proofs.Outcome

/-!
# What operations on files change

Each operation on files is described by what it leaves at every location. Directories stay where
they are, so a path that could be followed once can be followed from then on.

## Main definitions

* `Files.target`: the location that a path leads to.
* `Files.way`: the locations that are passed on the way.
* `Files.Keeps`: no directory is lost.

## Main statements

* `Files.read_eq_ok`, `Files.write_eq_ok`, `Files.rename_eq_ok`: when operations succeed.
* `Files.get?_of_write`, `Files.get?_of_rename`, `Files.makeDirsFrom_spec`: what they leave.
* `Files.follow_of_keeps`, `Files.follow_of_free`: paths that can be followed.
-/

namespace Arbor.Files

variable {files after : Files} {location : Location} {path : String}

/-! ## Entries -/

theorem lookup_cons_of_ne {first other : Location} (different : other ≠ first) (entry : FileEntry)
    (rest : List (Location × FileEntry)) :
    ((first, entry) :: rest).lookup other = rest.lookup other := by
  rw [List.lookup_cons, beq_false_of_ne different]

theorem lookup_filter_ne (entries : List (Location × FileEntry)) (location other : Location) :
    (entries.filter (·.1 != location)).lookup other =
      if other = location then none else entries.lookup other := by
  induction entries with
  | nil => simp
  | cons entry rest ih =>
    obtain ⟨first, entry⟩ := entry
    by_cases same : first = location
    · subst same
      by_cases equal : other = first
      · simpa [equal] using ih
      · simpa [equal, lookup_cons_of_ne equal] using ih
    · by_cases equal : other = first
      · simp [equal, same]
      · simpa [same, lookup_cons_of_ne equal] using ih

theorem get?_put (inner : location ≠ []) (entry : FileEntry) (other : Location) :
    (files.put location entry).get? other =
      if other = location then some entry else files.get? other := by
  by_cases same : other = location
  · subst same
    simp [put, get?, inner]
  · simp [put, get?, lookup_cons_of_ne same, lookup_filter_ne, same]

theorem get?_erase (inner : location ≠ []) (other : Location) :
    (files.erase location).get? other =
      if other = location then none else files.get? other := by
  by_cases same : other = location
  · subst same
    simp [erase, get?, inner, lookup_filter_ne]
  · simp [erase, get?, lookup_filter_ne, same]

theorem ne_nil_of_not_directory (other : files.get? location ≠ some .directory) :
    location ≠ [] := by
  rintro rfl
  exact other rfl

/-! ## Paths -/

theorem names_append (front back : String) :
    names (front ++ "/" ++ back) = names front ++ names back := by
  have parts : (front ++ "/" ++ back).toList.splitOn '/' =
      front.toList.splitOn '/' ++ back.toList.splitOn '/' := by
    rw [String.toList_append, String.toList_append, List.append_assoc]
    exact List.splitOnP_append_cons _ _ (beq_self_eq_true '/')
  rw [names, parts, List.map_append, List.filter_append, names, names]

theorem names_eq_singleton {name : String} (plain : '/' ∉ name.toList)
    (counts : name ≠ "" ∧ name ≠ ".") : names name = [name] := by
  have parts : name.toList.splitOn '/' = [name.toList] := by
    apply List.splitOnP_eq_singleton
    intro c hc
    have : c ≠ '/' := fun h => plain (h ▸ hc)
    simpa using this
  simp [names, parts, counts]

/-- The location that a path leads to, if all that it passes is there. -/
def target (path : String) : Location := (names path).foldl enter []

theorem eq_of_follow {above : Location} {names : List String}
    (found : files.follow above names = .ok location) : location = names.foldl enter above := by
  induction names generalizing above with
  | nil => exact (Except.ok.inj found).symm
  | cons name rest ih =>
    simp only [follow] at found
    split at found <;> try contradiction
    split at found <;> try contradiction
    exact ih found

theorem locate_eq_ok : files.locate path = .ok location ↔
    IsPath path ∧ path ≠ "" ∧ files.follow [] (names path) = .ok location := by
  unfold locate
  by_cases isPath : IsPath path
  · rw [if_neg (not_not_intro isPath)]
    by_cases empty : path = "" <;> simp [isPath, empty]
  · simp [isPath]

theorem eq_target_of_locate (found : files.locate path = .ok location) :
    location = target path :=
  eq_of_follow (locate_eq_ok.1 found).2.2

def Keeps (files after : Files) : Prop :=
  ∀ location, files.get? location = some .directory → after.get? location = some .directory

theorem follow_of_keeps (keeps : files.Keeps after) {above : Location} {names : List String}
    (found : files.follow above names = .ok location) :
    after.follow above names = .ok location := by
  induction names generalizing above with
  | nil => exact found
  | cons name rest ih =>
    simp only [follow] at found ⊢
    split at found <;> try contradiction
    next directory =>
    split at found <;> try contradiction
    next short =>
    rw [keeps above directory]
    simp only [short, if_false]
    exact ih found

theorem locate_of_keeps (keeps : files.Keeps after) (found : files.locate path = .ok location) :
    after.locate path = .ok location := by
  obtain ⟨isPath, nonempty, found⟩ := locate_eq_ok.1 found
  exact locate_eq_ok.2 ⟨isPath, nonempty, follow_of_keeps keeps found⟩

/-! ## Operations -/

theorem read_eq_ok {bytes : List UInt8} :
    files.read path = .ok bytes ↔ files.locate path = .ok (target path) ∧
      files.get? (target path) = some (.file bytes) := by
  rw [read, bind_eq_ok]
  constructor
  · rintro ⟨location, found, returned⟩
    obtain rfl := eq_target_of_locate found
    refine ⟨found, ?_⟩
    split at returned <;> simp_all
  · rintro ⟨found, holds⟩
    exact ⟨_, found, by simp [holds]⟩

theorem store_eq_ok {bytes : List UInt8} :
    files.store location bytes = .ok after ↔ files.get? location ≠ some .directory ∧
      after = files.put location (.file bytes) := by
  unfold store
  split
  · next directory => simp [directory]
  · next other => exact ⟨fun h => ⟨other, (Except.ok.inj h).symm⟩, fun h => h.2 ▸ rfl⟩

theorem write_eq_ok {bytes : List UInt8} :
    files.write path bytes = .ok after ↔ files.locate path = .ok (target path) ∧
      files.get? (target path) ≠ some .directory ∧
      after = files.put (target path) (.file bytes) := by
  rw [write, bind_eq_ok]
  constructor
  · rintro ⟨location, found, stored⟩
    obtain rfl := eq_target_of_locate found
    exact ⟨found, store_eq_ok.1 stored⟩
  · rintro ⟨found, stored⟩
    exact ⟨_, found, store_eq_ok.2 stored⟩

theorem get?_of_write {bytes : List UInt8} (written : files.write path bytes = .ok after)
    (other : Location) :
    after.get? other = if other = target path then some (.file bytes) else files.get? other := by
  obtain ⟨-, free, rfl⟩ := write_eq_ok.1 written
  exact get?_put (ne_nil_of_not_directory free) _ other

theorem keeps_of_write {bytes : List UInt8} (written : files.write path bytes = .ok after) :
    files.Keeps after := by
  intro location directory
  obtain ⟨-, free, -⟩ := write_eq_ok.1 written
  rw [get?_of_write written, if_neg, directory]
  rintro rfl
  exact free directory

section rename

variable {source : String}

theorem rename_eq_ok :
    files.rename source path = .ok after ↔ ∃ bytes, files.read source = .ok bytes ∧
      files.locate path = .ok (target path) ∧
      (files.erase (target source)).get? (target path) ≠ some .directory ∧
      after = (files.erase (target source)).put (target path) (.file bytes) := by
  by_cases isPath : IsPath path
  · rw [rename, if_neg (not_not_intro isPath)]
    refine bind_eq_ok.trans ?_
    refine exists_congr fun bytes => and_congr_right fun known => ?_
    have found := (read_eq_ok.1 known).1
    rw [found, ok_bind, bind_eq_ok]
    constructor
    · rintro ⟨location, reached, stored⟩
      obtain rfl := eq_target_of_locate reached
      exact ⟨reached, store_eq_ok.1 stored⟩
    · rintro ⟨reached, stored⟩
      exact ⟨_, reached, store_eq_ok.2 stored⟩
  · constructor
    · intro moved
      rw [rename, if_pos isPath] at moved
      contradiction
    · rintro ⟨-, -, reached, -⟩
      exact absurd (locate_eq_ok.1 reached).1 isPath

theorem get?_of_rename (moved : files.rename source path = .ok after) :
    ∃ bytes, files.get? (target source) = some (.file bytes) ∧
      files.get? (target path) ≠ some .directory ∧
      ∀ other, after.get? other = if other = target path then some (.file bytes)
        else if other = target source then none else files.get? other := by
  obtain ⟨bytes, known, -, free, rfl⟩ := rename_eq_ok.1 moved
  have holds := (read_eq_ok.1 known).2
  have inner : target source ≠ [] := by
    apply @ne_nil_of_not_directory files
    simp [holds]
  refine ⟨bytes, holds, ?_, fun other => ?_⟩
  · intro directory
    rw [get?_erase inner, if_neg, directory] at free
    · exact free rfl
    · intro same
      rw [same, holds] at directory
      cases directory
  · rw [get?_put (ne_nil_of_not_directory free), get?_erase inner]

theorem keeps_of_rename (moved : files.rename source path = .ok after) : files.Keeps after := by
  intro location directory
  obtain ⟨bytes, holds, free, left⟩ := get?_of_rename moved
  rw [left, if_neg, if_neg, directory]
  · rintro rfl
    rw [holds] at directory
    cases directory
  · rintro rfl
    exact free directory

end rename

/-! ## Directories -/

def way (above : Location) : (names : List String) → List Location
  | [] => []
  | name :: rest => enter above name :: way (enter above name) rest

theorem follow_singleton {above : Location} {name : String}
    (found : files.follow above [name] = .ok location) :
    files.get? above = some .directory ∧ name.utf8ByteSize ≤ longestName ∧
      location = enter above name := by
  simp only [follow] at found
  split at found <;> try contradiction
  next directory =>
  split at found <;> try contradiction
  next short => exact ⟨directory, Nat.not_lt.1 short, (Except.ok.inj found).symm⟩

/-- What is left after directories were created: everything that was there, with new directories on
the way only. -/
theorem makeDirsFrom_spec {names : List String} {above : Location}
    (made : files.makeDirsFrom above names = .ok after) :
    (∀ location, after.get? location = files.get? location ∨
      location ∈ way above names ∧ files.get? location = none ∧
        after.get? location = some .directory) ∧
    (∀ location ∈ way above names, after.get? location = some .directory) ∧
    ∀ name ∈ names, name.utf8ByteSize ≤ longestName := by
  induction names generalizing files above with
  | nil =>
    obtain rfl := Except.ok.inj made
    simp [way]
  | cons name rest ih =>
    rw [makeDirsFrom, bind_eq_ok] at made
    obtain ⟨location, found, made⟩ := made
    obtain ⟨-, short, rfl⟩ := follow_singleton found
    split at made
    · next directory =>
      obtain ⟨left, there, shorter⟩ := ih made
      refine ⟨fun location => ?_, fun location member => ?_, by simpa [short] using shorter⟩
      · exact (left location).imp_right fun h => ⟨.tail _ h.1, h.2⟩
      · obtain rfl | member := List.mem_cons.1 member
        · obtain same | ⟨-, free, -⟩ := left (enter above name)
          · rw [same, directory]
          · simp [directory] at free
        · exact there location member
    · contradiction
    · next free =>
      obtain ⟨left, there, shorter⟩ := ih made
      have inner : enter above name ≠ [] := by
        intro top
        simp [top, get?] at free
      have created : after.get? (enter above name) = some .directory := by
        obtain same | ⟨-, -, directory⟩ := left (enter above name)
        · rw [same, get?_put inner, if_pos rfl]
        · exact directory
      refine ⟨fun location => ?_, fun location member => ?_, by simpa [short] using shorter⟩
      · by_cases here : location = enter above name
        · subst here
          exact .inr ⟨.head _, free, created⟩
        · obtain same | ⟨member, before, directory⟩ := left location
          · exact .inl (by rw [same, get?_put inner, if_neg here])
          · rw [get?_put inner, if_neg here] at before
            exact .inr ⟨.tail _ member, before, directory⟩
      · obtain rfl | member := List.mem_cons.1 member
        · exact created
        · exact there location member

theorem makeDirs_eq_ok : files.makeDirs path = .ok after ↔
    IsPath path ∧ files.makeDirsFrom [] (names path) = .ok after := by
  unfold makeDirs
  by_cases isPath : IsPath path <;> simp [isPath]

theorem makeDirs_spec (made : files.makeDirs path = .ok after) :
    (∀ location, after.get? location = files.get? location ∨
      location ∈ way [] (names path) ∧ files.get? location = none ∧
        after.get? location = some .directory) ∧
    (∀ location ∈ way [] (names path), after.get? location = some .directory) ∧
    ∀ name ∈ names path, name.utf8ByteSize ≤ longestName :=
  makeDirsFrom_spec (makeDirs_eq_ok.1 made).2

theorem keeps_of_makeDirs (made : files.makeDirs path = .ok after) : files.Keeps after := by
  intro location directory
  obtain same | ⟨-, free, -⟩ := (makeDirs_spec made).1 location
  · rw [same, directory]
  · simp [directory] at free

/-- If no file is in the way, directories can be created. -/
theorem exists_makeDirsFrom {above : Location} {names : List String}
    (top : files.get? above = some .directory)
    (free : ∀ location ∈ way above names, ∀ bytes, files.get? location ≠ some (.file bytes))
    (short : ∀ name ∈ names, name.utf8ByteSize ≤ longestName) :
    ∃ after, files.makeDirsFrom above names = .ok after := by
  induction names generalizing files above with
  | nil => exact ⟨files, rfl⟩
  | cons name rest ih =>
    have found : files.follow above [name] = .ok (enter above name) := by
      simp [follow, top, Nat.not_lt.2 (short name (.head _))]
    have shorter : ∀ name ∈ rest, name.utf8ByteSize ≤ longestName :=
      fun name member => short name (.tail _ member)
    simp only [makeDirsFrom, found, ok_bind]
    split
    · next there => exact ih there (fun location member => free location (.tail _ member)) shorter
    · next holds => exact absurd holds (free _ (.head _) _)
    · next missing =>
      have inner : enter above name ≠ [] := by
        intro same
        simp [same, get?] at missing
      have put := @get?_put files _ inner .directory
      refine ih (by rw [put, if_pos rfl]) (fun location member bytes => ?_) shorter
      rw [put]
      split
      · exact nofun
      · exact free location (.tail _ member) bytes

/-- If no file is in the way, a path can be followed, or something on it is missing. -/
theorem follow_of_free {above : Location} {names : List String} {last : String}
    (free : ∀ location ∈ above :: way above names, ∀ bytes,
      files.get? location ≠ some (.file bytes))
    (short : ∀ name ∈ names ++ [last], name.utf8ByteSize ≤ longestName) :
    (files.follow above (names ++ [last]) = .error .notFound ∧
      ∃ location ∈ above :: way above names, files.get? location = none) ∨
    files.follow above (names ++ [last]) = .ok ((names ++ [last]).foldl enter above) := by
  induction names generalizing above with
  | nil =>
    have fits : ¬ longestName < last.utf8ByteSize := Nat.not_lt.2 (short last (by simp))
    simp only [List.nil_append, follow, List.foldl_cons, List.foldl_nil]
    split
    · next missing => exact .inl ⟨rfl, above, .head _, missing⟩
    · next holds => exact absurd holds (free above (.head _) _)
    · exact .inr (if_neg fits)
  | cons name rest ih =>
    have fits : ¬ longestName < name.utf8ByteSize := Nat.not_lt.2 (short name (by simp))
    simp only [List.cons_append, follow, List.foldl_cons]
    split
    · next missing => exact .inl ⟨rfl, above, .head _, missing⟩
    · next holds => exact absurd holds (free above (.head _) _)
    · rw [if_neg fits]
      obtain ⟨stuck, location, member, missing⟩ | found := ih
        (fun location member => free location (.tail _ member))
        fun other member => short other (.tail _ member)
      · exact .inl ⟨stuck, location, .tail _ member, missing⟩
      · exact .inr found

end Arbor.Files
