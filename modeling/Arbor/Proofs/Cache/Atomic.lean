import Arbor.Proofs.Cache.Sound

/-!
# Entries are stored at once

Any number of processes store entries in one directory. Whatever they do in between and wherever
they stop, what is found for a key is a whole entry: the one that was moved to its place last. What
is stored at other places does not change it, but a key is a path, and different paths can lead to
one place.

## Main definitions

* `Vacant`, `Room`: what the files at the start have to leave free.
* `Atomic`: what holds of the writers at any time.

## Main statements

* `Sound.lookup_of_name`: what is found for a name is exactly what was moved there last.
* `Room.lookup_of_unbroken`: a process that is not interrupted stores its entry.
* `puts_atomic`: all of it together, for every list of moves.
* `put_same_place`: two keys with one place.
-/

namespace Arbor.Cache.Directory

open Build (Bytes)
open Files

variable {directory : String} {world : World}

/-! ## What is found -/

theorem lookup_eq (key : String) : world.lookup directory key =
    match world.files.read (pathOf directory key) with
    | .ok bytes => .ok (some bytes)
    | .error .notFound => .ok none
    | .error cause => .error (.io cause) := by
  change ((match world.files.read (pathOf directory key) with
    | .ok bytes => pure (.ok (some bytes))
    | .error .notFound => pure (.ok none)
    | .error cause => pure (.error (.io cause)) : StateM Machine (Except Error (Option Bytes))).run
      { files := world.files }).1 = _
  cases world.files.read (pathOf directory key) with
  | ok bytes => rfl
  | error cause => cases cause <;> rfl

theorem fileAt_eq_some {files : Files} {location : Location} {bytes : Bytes} :
    fileAt files location = some bytes ↔ files.get? location = some (.file bytes) := by
  unfold fileAt
  split
  · next holds => simp [holds]
  · next other => simpa using fun holds => other _ holds

/-- The directory can be made, and then nothing is at the place of the key. -/
def Vacant (directory : String) (start : Files) (key : String) : Prop :=
  ∃ made, start.makeDirs directory = .ok made ∧ made.get? (placeOf directory key) = none

namespace Vacant

variable {start : Files} {key : String}

theorem empty (vacant : Vacant directory start key) :
    start.get? (placeOf directory key) = none := by
  obtain ⟨made, can, vacant⟩ := vacant
  obtain same | ⟨-, absent, -⟩ := (makeDirs_spec can).1 (placeOf directory key)
  · rw [← same, vacant]
  · exact absent

theorem outside (vacant : Vacant directory start key) :
    placeOf directory key ∉ way [] (names directory) := by
  obtain ⟨made, can, vacant⟩ := vacant
  intro member
  rw [(makeDirs_spec can).2.1 _ member] at vacant
  cases vacant

theorem folder (vacant : Vacant directory start key) : IsPath directory := by
  obtain ⟨made, can, -⟩ := vacant
  exact (makeDirs_eq_ok.1 can).1

theorem short (vacant : Vacant directory start key) :
    ∀ name ∈ names directory, name.utf8ByteSize ≤ longestName := by
  obtain ⟨made, can, -⟩ := vacant
  exact (makeDirs_spec can).2.2

theorem short_append (vacant : Vacant directory start key) {last : String}
    (short : last.utf8ByteSize ≤ longestName) :
    ∀ name ∈ names directory ++ [last], name.utf8ByteSize ≤ longestName := by
  intro name member
  obtain member | member := List.mem_append.1 member
  · exact vacant.short name member
  · rwa [List.mem_singleton.1 member]

theorem free (vacant : Vacant directory start key) : Free directory start := by
  obtain ⟨made, can, -⟩ := vacant
  obtain ⟨left, there, -⟩ := makeDirs_spec can
  intro location member bytes holds
  obtain same | ⟨-, absent, -⟩ := left location
  · rw [← same, there location member] at holds
    cases holds
  · rw [absent] at holds
    cases holds

theorem ne_directory {files : Files} {moved : List (String × Bytes)} {pending : Location → Prop}
    (vacant : Vacant directory start key)
    (settled : Settled directory start files moved pending) :
    files.get? (placeOf directory key) ≠ some .directory := by
  intro folder
  obtain before | member := settled.folders folder
  · rw [vacant.empty] at before
    cases before
  · exact vacant.outside member

end Vacant

namespace Sound

variable {start : Files} {key : String}

theorem get?_of_latest (sound : Sound directory start world) (entry : IsEntry key) {bytes : Bytes}
    (last : latest directory world.moved key = some bytes) :
    world.files.get? (placeOf directory key) = some (.file bytes) := by
  have contents := sound.settled.contents entry
  rw [last, Option.some_or] at contents
  exact fileAt_eq_some.1 contents

theorem latest_of_get? (sound : Sound directory start world) (entry : IsEntry key)
    (empty : start.get? (placeOf directory key) = none) {bytes : Bytes}
    (holds : world.files.get? (placeOf directory key) = some (.file bytes)) :
    latest directory world.moved key = some bytes := by
  have contents := sound.settled.contents entry
  have absent : fileAt start (placeOf directory key) = none := by rw [fileAt, empty]
  rwa [fileAt_eq_some.2 holds, absent, Option.or_none, eq_comm] at contents

/-- Whatever the key is, no part of an entry is found. -/
theorem lookup_cases (sound : Sound directory start world) (entry : IsEntry key)
    (empty : start.get? (placeOf directory key) = none) :
    world.lookup directory key = .ok (latest directory world.moved key) ∨
      world.lookup directory key = .ok none ∨
      ∃ cause, world.lookup directory key = .error (.io cause) := by
  rw [lookup_eq]
  split
  · next bytes known =>
    exact .inl (by rw [sound.latest_of_get? entry empty (read_eq_ok.1 known).2])
  · exact .inr (.inl rfl)
  · exact .inr (.inr ⟨_, rfl⟩)

/-- A key to whose own path an entry was moved. -/
theorem lookup_of_moved (sound : Sound directory start world) (entry : IsEntry key)
    {bytes : Bytes} (moved : (key, bytes) ∈ world.moved) :
    ∃ last, latest directory world.moved key = some last ∧
      world.lookup directory key = .ok (some last) := by
  obtain ⟨last, found⟩ : ∃ last, latest directory world.moved key = some last := by
    rw [← Option.isSome_iff_exists, latest, Option.isSome_map, List.find?_isSome]
    exact ⟨_, moved, by simp⟩
  obtain ⟨-, location, reached⟩ := sound.settled.reached _ moved
  obtain rfl := eq_target_of_locate reached
  have known := read_eq_ok.2 ⟨reached, sound.get?_of_latest entry found⟩
  exact ⟨last, found, by rw [lookup_eq, known]⟩

theorem latest_eq_none (sound : Sound directory start world) (entry : IsEntry key)
    (absent : world.files.get? (placeOf directory key) = none) :
    latest directory world.moved key = none := by
  cases last : latest directory world.moved key with
  | none => rfl
  | some bytes => simp [sound.get?_of_latest entry last] at absent

/-- Nothing was moved yet if something on the way to the directory is missing. -/
theorem latest_of_missing (sound : Sound directory start world) {location : Location}
    (member : location ∈ [] :: way [] (names directory))
    (missing : world.files.get? location = none) (key : String) :
    latest directory world.moved key = none := by
  have nothing : world.moved = [] := by
    rw [List.eq_nil_iff_forall_not_mem]
    intro moved present
    obtain rfl | member := List.mem_cons.1 member
    · cases missing
    · rw [(sound.settled.reached moved present).1 location member] at missing
      cases missing
  rw [nothing]
  rfl

/-- A key that is a name: exactly what was moved to it last is found. -/
theorem lookup_of_name (sound : Sound directory start world) (name : IsName key)
    (vacant : Vacant directory start key) :
    world.lookup directory key = .ok (latest directory world.moved key) := by
  have place : (names directory ++ [key]).foldl enter [] = placeOf directory key := by
    rw [placeOf, target, names_pathOf name.alone name.plain]
  have followed := @follow_of_free world.files [] (names directory) key ?_ ?_
  · rw [lookup_eq, Files.read, locate_pathOf vacant.folder name.isPath name.alone name.plain]
    obtain ⟨stuck, location, member, missing⟩ | found := followed
    · rw [stuck, sound.latest_of_missing member missing]
      rfl
    · rw [found, place, ok_bind]
      cases holds : world.files.get? (placeOf directory key) with
      | none =>
        rw [sound.latest_eq_none name.entry holds]
        rfl
      | some found =>
        cases found with
        | file bytes =>
          rw [sound.latest_of_get? name.entry vacant.empty holds]
          rfl
        | directory => exact absurd holds (vacant.ne_directory sound.settled)
  · intro location member bytes
    obtain rfl | member := List.mem_cons.1 member
    · simp [get?]
    · exact sound.settled.free vacant.free location member bytes
  · exact vacant.short_append name.short

end Sound

/-! ## What others do -/

theorem moved_reply (index : Nat) (writer : Writer) :
    (world.reply index writer).moved = world.moved ∨
      (world.reply index writer).moved = (writer.key, writer.bytes) :: world.moved := by
  have changed (outcome next) : (world.change index writer outcome next).moved = world.moved := by
    cases outcome <;> rfl
  unfold World.reply
  split
  case h_3 | h_4 => exact .inl (changed _ _)
  case h_5 =>
    split
    · exact .inl rfl
    · exact .inr rfl
  all_goals exact .inl rfl

theorem moved_refuse (index : Nat) (writer : Writer) (cause : IoFault) :
    (world.refuse index writer cause).moved = world.moved := by
  unfold World.refuse
  split <;> rfl

theorem moved_spill (writer : Writer) (count : Nat) :
    (world.spill writer count).moved = world.moved := by
  unfold World.spill
  split
  · split <;> rfl
  · rfl

/-- A move records an entry of its own key only. -/
theorem moved_step (move : Move) : (world.step directory move).moved = world.moved ∨
    ∃ key bytes, world.keyOf? move = some key ∧
      (world.step directory move).moved = (key, bytes) :: world.moved := by
  cases move with
  | start => exact .inl rfl
  | advance index =>
    simp only [World.step, World.keyOf?]
    cases world.writers[index]? with
    | none => exact .inl rfl
    | some writer => exact (moved_reply index writer).imp_right fun h => ⟨_, _, rfl, h⟩
  | refuse index cause =>
    simp only [World.step]
    cases world.writers[index]? with
    | none => exact .inl rfl
    | some writer => exact .inl (moved_refuse index writer cause)
  | spill index count =>
    simp only [World.step]
    cases world.writers[index]? with
    | none => exact .inl rfl
    | some writer => exact .inl (moved_spill writer count)

theorem latest_cons_of_ne {key other : String}
    (elsewhere : placeOf directory other ≠ placeOf directory key) (bytes : Bytes)
    (moved : List (String × Bytes)) :
    latest directory ((other, bytes) :: moved) key = latest directory moved key := by
  simp [latest, elsewhere]

/-- A move that is about another place leaves what was stored last. -/
theorem latest_step {key : String} {move : Move}
    (elsewhere : ∀ other, world.keyOf? move = some other →
      placeOf directory other ≠ placeOf directory key) :
    latest directory (world.step directory move).moved key = latest directory world.moved key := by
  obtain same | ⟨other, bytes, about, moved⟩ := @moved_step directory world move
  · rw [same]
  · rw [moved, latest_cons_of_ne (elsewhere other about)]

namespace Sound

variable {start : Files} {key : String}

/-- A name is not affected by what is stored elsewhere. -/
theorem lookup_step (sound : Sound directory start world) (name : IsName key)
    (vacant : Vacant directory start key) {move : Move}
    (elsewhere : ∀ other, world.keyOf? move = some other →
      IsEntry other ∧ placeOf directory other ≠ placeOf directory key) :
    (world.step directory move).lookup directory key = world.lookup directory key := by
  have after : Sound directory start (world.step directory move) := by
    apply sound.step
    rintro process other bytes rfl
    exact (elsewhere other rfl).1
  rw [after.lookup_of_name name vacant, sound.lookup_of_name name vacant,
    latest_step fun other about => (elsewhere other about).2]

/-- Once all writers have succeeded, what is left of temporary files is older than they are. -/
theorem get?_of_isTemporary (sound : Sound directory start world)
    (succeeded : ∀ writer ∈ world.writers, writer.Succeeded) {above : Location}
    {name : String} (temporary : IsTemporary name) {bytes : Bytes}
    (holds : world.files.get? (above ++ [name]) = some (.file bytes)) :
    start.get? (above ++ [name]) ≠ none := by
  have present : world.files.get? (above ++ [name]) ≠ none := by simp [holds]
  obtain before | folder | ⟨key, entry, place⟩ | ⟨index, writer, -, here, unfinished, -⟩ :=
    sound.settled.left present
  · exact before
  · rw [holds] at folder
    cases folder
  · obtain ⟨beside, last, ends, placed, -⟩ := exists_place entry directory
    rw [placed] at place
    obtain rfl := List.singleton_inj.1 (List.append_inj' place rfl).2
    exact absurd temporary ends.not_isTemporary
  · exact absurd (succeeded writer (List.mem_of_getElem? here)) unfinished

end Sound

/-! ## Progress -/

section progress

variable {start : Files} {key : String} {process count : Nat}

/-- There is room for an entry and for the temporary file that it is written to. -/
structure Room (directory : String) (start : Files) (key text : String) : Prop where
  name : IsName key
  vacant : Vacant directory start key
  beside : Vacant directory start (key ++ temporaryEnd text)
  short : (key ++ temporaryEnd text).utf8ByteSize ≤ longestName

/-- If there is room, all requests of a writer succeed. -/
theorem Room.requests_succeed {files : Files} {moved : List (String × Bytes)}
    {pending : Location → Prop} (room : Room directory start key (uniqueText process count))
    (settled : Settled directory start files moved pending) (bytes : Bytes) :
    ∃ made written after, files.makeDirs directory = .ok made ∧
      made.write (temporaryPath directory key (uniqueText process count)) bytes = .ok written ∧
      written.rename (temporaryPath directory key (uniqueText process count))
        (pathOf directory key) = .ok after := by
  obtain ⟨name, vacant, beside, short⟩ := room
  have ends := plain_temporaryEnd process count
  have alone := names_of_plain name.entry name.plain ends
  have located {files : Files} (made : Made directory files) :=
    locate_of_made made vacant.folder (name.isPath_append process count) alone
      (by simp [name.plain, ends]) (vacant.short_append short)
  obtain ⟨made, can⟩ := exists_makeDirsFrom rfl (settled.free vacant.free) vacant.short
  replace can := makeDirs_eq_ok.2 ⟨vacant.folder, can⟩
  have there : Made directory made := (makeDirs_spec can).2.1
  have settledMade := settled.makeDirs can
  obtain ⟨written, wrote⟩ : ∃ written, made.write
      (temporaryPath directory key (uniqueText process count)) bytes = .ok written := by
    rw [temporaryPath_eq]
    exact ⟨_, write_eq_ok.2 ⟨located there, beside.ne_directory settledMade, rfl⟩⟩
  have still := there.keeps (keeps_of_write wrote)
  have settledWritten := settledMade.write name.entry there wrote
  have whole := get?_of_written wrote (temporaryOf directory key (uniqueText process count))
  rw [if_pos rfl] at whole
  refine ⟨made, written, _, can, wrote, rename_eq_ok.2 ⟨bytes, ?_, ?_, ?_, rfl⟩⟩
  · rw [temporaryPath_eq]
    exact read_eq_ok.2 ⟨located still, whole⟩
  · exact locate_of_made still vacant.folder name.isPath name.alone name.plain
      (vacant.short_append name.short)
  · rw [get?_erase]
    · split
      · exact nofun
      · exact vacant.ne_directory settledWritten
    · rw [target_temporaryPath]
      apply @ne_nil_of_not_directory written
      simp [whole]

/-- The moves of a process that stores an entry without a break. -/
def World.unbroken (world : World) (process : Nat) (key : String) (bytes : Bytes) : List Move :=
  .start process key bytes :: List.replicate 4 (.advance world.writers.length)

theorem Room.moved_of_unbroken (sound : Sound directory start world)
    (room : Room directory start key (uniqueText process (world.given process))) (bytes : Bytes) :
    (world.run directory (world.unbroken process key bytes)).moved =
      (key, bytes) :: world.moved := by
  obtain ⟨made, written, after, can, wrote, renamed⟩ := room.requests_succeed sound.settled bytes
  simp [World.unbroken, World.run, List.replicate, World.step, World.reply, put_eq, naming, writing,
    moving, proceed, World.change, World.resume, World.issue, World.record, can, wrote, renamed]

/-- An entry that was stored without a break is found. -/
theorem Room.lookup_of_unbroken (sound : Sound directory start world)
    (room : Room directory start key (uniqueText process (world.given process))) (bytes : Bytes) :
    (world.run directory (world.unbroken process key bytes)).lookup directory key =
      .ok (some bytes) := by
  have moved := room.moved_of_unbroken sound bytes
  have after : Sound directory start (world.run directory (world.unbroken process key bytes)) := by
    refine sound.run fun _ _ _ member => ?_
    obtain ⟨-, rfl, -⟩ : _ ∧ _ ∧ _ := by simpa [World.unbroken] using member
    exact room.name.entry
  have first : (key, bytes) ∈ (world.run directory (world.unbroken process key bytes)).moved :=
    moved ▸ .head _
  obtain ⟨last, stored, found⟩ := after.lookup_of_moved room.name.entry first
  rw [moved, latest, List.find?_cons_of_pos (by simp), Option.map_some] at stored
  rw [found, ← stored]

end progress

/-! ## Atomicity -/

/-- What holds of the writers of a directory, whatever they have done since the start. -/
structure Atomic (directory : String) (start : Files) (world : World) : Prop where
  /-- The entries that were moved are those of the writers that have succeeded. -/
  recorded : world.Recorded
  /-- No part of an entry is found for any key, nor an entry that was replaced. -/
  undivided {key : String} (entry : IsEntry key)
    (empty : start.get? (placeOf directory key) = none) :
    world.lookup directory key = .ok (latest directory world.moved key) ∨
      world.lookup directory key = .ok none ∨
      ∃ cause, world.lookup directory key = .error (.io cause)
  /-- Once something was moved for a key, what was moved last is found. -/
  stored {key : String} (entry : IsEntry key) {bytes : Bytes} (moved : (key, bytes) ∈ world.moved) :
    ∃ last, latest directory world.moved key = some last ∧
      world.lookup directory key = .ok (some last)
  /-- For a name exactly what was moved last is found, and nothing if nothing was. -/
  found {key : String} (name : IsName key) (vacant : Vacant directory start key) :
    world.lookup directory key = .ok (latest directory world.moved key)
  /-- Different names have different places. -/
  separate {key other : String} (name : IsName key) (another : IsName other)
    (different : key ≠ other) : placeOf directory key ≠ placeOf directory other
  /-- A move that is about another place does not change what is found for a name. -/
  unaffected {key : String} (name : IsName key) (vacant : Vacant directory start key) {move : Move}
    (elsewhere : ∀ other, world.keyOf? move = some other →
      IsEntry other ∧ placeOf directory other ≠ placeOf directory key) :
    (world.step directory move).lookup directory key = world.lookup directory key
  /-- A process that stores an entry without a break succeeds if there is room. -/
  progress {process : Nat} {key : String}
    (room : Room directory start key (uniqueText process (world.given process))) (bytes : Bytes) :
    (world.run directory (world.unbroken process key bytes)).lookup directory key = .ok (some bytes)
  /-- When all writers have succeeded, there are no temporary files but those of the start. -/
  swept (succeeded : ∀ writer ∈ world.writers, writer.Succeeded) {above : Location} {name : String}
    (temporary : IsTemporary name) {bytes : Bytes}
    (holds : world.files.get? (above ++ [name]) = some (.file bytes)) :
    start.get? (above ++ [name]) ≠ none

/-- Writers go on in any order, stop or fail anywhere, and write their files piece by piece. -/
theorem puts_atomic (directory : String) (start : Files) (moves : List Move)
    (entries : ∀ process key bytes, .start process key bytes ∈ moves → IsEntry key) :
    Atomic directory start (World.run directory { files := start } moves) := by
  have sound : Sound directory start _ := (Sound.begin start).run entries
  constructor
  case recorded => exact sound.recorded
  case undivided => exact sound.lookup_cases
  case stored => exact fun entry _ => sound.lookup_of_moved entry
  case found => exact sound.lookup_of_name
  case separate => exact fun name another => mt (name.placeOf_inj another)
  case unaffected => exact sound.lookup_step
  case progress => exact fun room => room.lookup_of_unbroken sound
  case swept => exact sound.get?_of_isTemporary

/-- Two processes store one entry. The first has written a part of its temporary file when the
second has succeeded. -/
def racing : List Move :=
  [.start 1 "a.json" [1, 2, 3], .start 2 "a.json" [4], .advance 0, .advance 0, .advance 1,
    .advance 1, .spill 0 2, .advance 1, .advance 1]

def raced : List Move := racing ++ [.advance 0, .advance 0]

theorem isName_a : IsName "a.json" where
  entry := ⟨"a", by decide +kernel⟩
  isPath := by decide +kernel
  plain := by decide +kernel
  short := by decide +kernel

theorem isEntry_of_mem_raced (process : Nat) (key : String) (bytes : Bytes)
    (member : .start process key bytes ∈ raced) : IsEntry key := by
  obtain ⟨-, rfl, -⟩ | ⟨-, rfl, -⟩ : _ ∧ _ ∧ _ ∨ _ ∧ _ ∧ _ := by
    simpa [raced, racing] using member
  all_goals exact isName_a.entry

theorem puts_atomic_raced :
    let half := World.run "cache" { files := {} } racing
    let later := World.run "cache" { files := {} } raced
    (half.files.get? ["cache", "a.json.1.0.tmp"] = some (.file [1, 2]) ∧
      half.lookup "cache" "a.json" = .ok (some [4])) ∧
    later.lookup "cache" "a.json" = .ok (some [1, 2, 3]) ∧
    (∀ above name bytes, IsTemporary name →
      later.files.get? (above ++ [name]) ≠ some (.file bytes)) ∧
    (later.run "cache" (later.unbroken 1 "a.json" [5])).lookup "cache" "a.json" =
      .ok (some [5]) := by
  have vacant : Vacant "cache" {} "a.json" :=
    ⟨⟨[(["cache"], .directory)]⟩, by decide +kernel, by decide +kernel⟩
  have beside : Vacant "cache" {} ("a.json" ++ temporaryEnd (uniqueText 1 1)) :=
    ⟨⟨[(["cache"], .directory)]⟩, by decide +kernel, by decide +kernel⟩
  have half := puts_atomic "cache" {} racing fun process key bytes member =>
    isEntry_of_mem_raced process key bytes (List.mem_append_left _ member)
  have later := puts_atomic "cache" {} raced isEntry_of_mem_raced
  refine ⟨⟨by decide +kernel, ?_⟩, ?_, fun above name bytes temporary holds => ?_, ?_⟩
  · exact (half.found isName_a vacant).trans (by decide +kernel)
  · exact (later.found isName_a vacant).trans (by decide +kernel)
  · refine later.swept (by decide +kernel) temporary holds ?_
    simp [get?]
  · have given : (World.run "cache" { files := {} } raced).given 1 = 1 := by decide +kernel
    apply later.progress
    rw [given]
    exact ⟨isName_a, vacant, beside, by decide +kernel⟩

/-- Keys are paths, so two keys can have one place: what is stored for the second of them replaces
what was stored for the first. -/
theorem put_same_place : ((do
    let _ ← put Machine.host "cache" "a.json" [0]
    let _ ← put Machine.host "cache" "./a.json" [1]
    get Machine.host "cache" "a.json").run {}).1 = .ok (some [1]) := by
  decide +kernel

end Arbor.Cache.Directory
