import Arbor.Proofs.Cache.Settled

/-!
# The invariant of the writers

Every writer is at a stage of its program, and what it relies on at that stage is left alone by the
others, since no two temporary files have the same name.

## Main definitions

* `Stage`: how far a writer is, and what it relies on.
* `World.Pending`: the temporary files of the writers that have not succeeded.
* `World.Recorded`: what was moved are the entries of the writers that have succeeded.
* `Sound`: all writers are at a stage, and the files are settled.

## Main statements

* `Sound.step`, `Sound.run`: every move keeps the invariant, and so do all moves together.
-/

namespace Arbor.Cache.Directory

open Build (Bytes)
open Files

variable {directory : String} {world : World} {index : Nat} {writer : Writer}

/-! ## The writers -/

/-- The writers after one of them went on. -/
theorem getElem?_set_eq_some {writers : List Writer} {next found : Writer} {other : Nat}
    (here : writers[index]? = some writer) : (writers.set index next)[other]? = some found ↔
      other = index ∧ found = next ∨ other ≠ index ∧ writers[other]? = some found := by
  grind

/-- The writers after one more has started. -/
theorem getElem?_append_eq_some {writers : List Writer} {next found : Writer} {other : Nat} :
    (writers ++ [next])[other]? = some found ↔
      writers[other]? = some found ∨ other = writers.length ∧ found = next := by
  grind

/-- How far a writer is, and what the files hold for it. -/
inductive Stage (directory : String) (files : Files) (writer : Writer) : Prop
  | opening (rest : writer.rest = put Script.host directory writer.key writer.bytes)
      (unnamed : writer.text = none)
  | naming (rest : writer.rest = naming directory writer.key writer.bytes)
      (unnamed : writer.text = none) (made : Made directory files)
  | writing {text : String} (rest : writer.rest = writing directory writer.key writer.bytes text)
      (named : writer.text = some text) (made : Made directory files)
  | moving {text : String} (rest : writer.rest = moving directory writer.key text)
      (named : writer.text = some text) (made : Made directory files)
      (whole : files.get? (temporaryOf directory writer.key text) = some (.file writer.bytes))
  | finished {result : Except Error Unit} (rest : writer.rest = .done result)

/-- A writer does not notice what others do, as long as its temporary file is left alone. -/
theorem Stage.frame {files after : Files} (stage : Stage directory files writer)
    (keeps : files.Keeps after) (kept : ∀ text, writer.text = some text →
      files.get? (temporaryOf directory writer.key text) = some (.file writer.bytes) →
      after.get? (temporaryOf directory writer.key text) = some (.file writer.bytes)) :
    Stage directory after writer := by
  cases stage with
  | opening rest unnamed => exact .opening rest unnamed
  | naming rest unnamed made => exact .naming rest unnamed (made.keeps keeps)
  | writing rest named made => exact .writing rest named (made.keeps keeps)
  | moving rest named made whole =>
    exact .moving rest named (made.keeps keeps) (kept _ named whole)
  | finished rest => exact .finished rest

/-- Every writer is at a stage, and no two have the same text. -/
structure Staged (directory : String) (world : World) : Prop where
  entry {index : Nat} {writer : Writer} (here : world.writers[index]? = some writer) :
    IsEntry writer.key
  stage {index : Nat} {writer : Writer} (here : world.writers[index]? = some writer) :
    Stage directory world.files writer
  text {index : Nat} {writer : Writer} (here : world.writers[index]? = some writer) {text : String}
    (named : writer.text = some text) :
    ∃ count < world.given writer.process, text = uniqueText writer.process count
  unique {index other : Nat} {writer second : Writer} (here : world.writers[index]? = some writer)
    (there : world.writers[other]? = some second) {text : String}
    (named : writer.text = some text) (alike : second.text = some text) : index = other

namespace Staged

variable {other : Nat} {second : Writer} {text another : String}

theorem temporaryOf_ne (staged : Staged directory world)
    (here : world.writers[index]? = some writer) (there : world.writers[other]? = some second)
    (different : other ≠ index) (named : writer.text = some text)
    (alike : second.text = some another) :
    temporaryOf directory second.key another ≠ temporaryOf directory writer.key text := by
  intro same
  obtain ⟨count, -, rfl⟩ := staged.text here named
  obtain ⟨number, -, rfl⟩ := staged.text there alike
  obtain ⟨processes, counts⟩ := temporaryOf_inj (staged.entry there) (staged.entry here) same
  rw [processes, counts] at alike
  exact different (staged.unique there here alike named)

theorem temporaryOf_ne_placeOf (staged : Staged directory world)
    (here : world.writers[index]? = some writer) (named : writer.text = some text) {key : String}
    (entry : IsEntry key) : temporaryOf directory writer.key text ≠ placeOf directory key := by
  obtain ⟨count, -, rfl⟩ := staged.text here named
  exact (placeOf_ne_temporaryOf entry (staged.entry here) _ _).symm

/-- A writer that goes on, without harm to the others. -/
theorem set {after : Files} {next : Writer} {given : Nat → Nat} {moved : List (String × Bytes)}
    (staged : Staged directory world) (here : world.writers[index]? = some writer)
    (keeps : world.files.Keeps after)
    (kept : ∀ {other second text}, other ≠ index → world.writers[other]? = some second →
      second.text = some text →
      world.files.get? (temporaryOf directory second.key text) = some (.file second.bytes) →
      after.get? (temporaryOf directory second.key text) = some (.file second.bytes))
    (more : ∀ process, world.given process ≤ given process)
    (entry : IsEntry next.key) (stage : Stage directory after next)
    (named : ∀ text, next.text = some text →
      (∃ count < given next.process, text = uniqueText next.process count) ∧
      ∀ other second, other ≠ index → world.writers[other]? = some second →
        second.text ≠ some text) :
    Staged directory ⟨after, world.writers.set index next, given, moved⟩ := by
  have either {i : Nat} {found : Writer} := (@getElem?_set_eq_some _ _ _ next found i here).1
  constructor
  case entry =>
    intro i found there
    obtain ⟨-, rfl⟩ | ⟨-, there⟩ := either there
    · exact entry
    · exact staged.entry there
  case stage =>
    intro i found there
    obtain ⟨-, rfl⟩ | ⟨different, there⟩ := either there
    · exact stage
    · exact (staged.stage there).frame keeps fun _ => kept different there
  case text =>
    intro i found there text same
    obtain ⟨-, rfl⟩ | ⟨-, there⟩ := either there
    · exact (named text same).1
    · obtain ⟨count, less, rfl⟩ := staged.text there same
      exact ⟨count, Nat.lt_of_lt_of_le less (more _), rfl⟩
  case unique =>
    intro i j first second atFirst atSecond text same alike
    obtain ⟨hi, rfl⟩ | ⟨different, before⟩ := either atFirst
    · obtain ⟨hj, -⟩ | ⟨different, there⟩ := either atSecond
      · exact hi.trans hj.symm
      · exact absurd alike ((named text same).2 _ _ different there)
    · obtain ⟨-, rfl⟩ | ⟨-, there⟩ := either atSecond
      · exact absurd same ((named text alike).2 _ _ different before)
      · exact staged.unique before there same alike

end Staged

/-- The location is that of the temporary file of a writer that has not stored its entry. -/
def World.Pending (directory : String) (world : World) (location : Location) : Prop :=
  ∃ (index : Nat) (writer : Writer) (text : String), world.writers[index]? = some writer ∧
    ¬ writer.Succeeded ∧ writer.text = some text ∧
    location = temporaryOf directory writer.key text

theorem pending_set {after : Files} {next : Writer} {given : Nat → Nat}
    {moved : List (String × Bytes)} (here : world.writers[index]? = some writer)
    {location : Location} (pending : world.Pending directory location)
    (own : ∀ text, writer.text = some text → location = temporaryOf directory writer.key text →
      ¬ next.Succeeded ∧ next.text = some text ∧ next.key = writer.key) :
    World.Pending directory ⟨after, world.writers.set index next, given, moved⟩ location := by
  obtain ⟨other, second, text, there, unfinished, named, rfl⟩ := pending
  by_cases same : other = index
  · subst same
    obtain rfl := Option.some.inj (here.symm.trans there)
    obtain ⟨unfinished, named, key⟩ := own text named rfl
    exact ⟨other, next, text, (getElem?_set_eq_some here).2 (.inl ⟨rfl, rfl⟩), unfinished, named,
      by rw [key]⟩
  · exact ⟨other, second, text, (getElem?_set_eq_some here).2 (.inr ⟨same, there⟩), unfinished,
      named, rfl⟩

/-- What was moved are the entries of the writers that have succeeded. -/
def World.Recorded (world : World) : Prop :=
  ∀ key bytes, (key, bytes) ∈ world.moved ↔ ∃ (index : Nat) (writer : Writer),
    world.writers[index]? = some writer ∧ writer.key = key ∧ writer.bytes = bytes ∧
      writer.Succeeded

section recorded

variable {after : Files} {next : Writer} {given : Nat → Nat} (recorded : world.Recorded)
  (here : world.writers[index]? = some writer) (unfinished : ¬ writer.Succeeded)
include recorded here unfinished

/-- The other writers that have succeeded. -/
theorem mem_moved_iff (key : String) (bytes : Bytes) : (key, bytes) ∈ world.moved ↔
    ∃ (other : Nat) (second : Writer), (other ≠ index ∧ world.writers[other]? = some second) ∧
      second.key = key ∧ second.bytes = bytes ∧ second.Succeeded := by
  rw [recorded]
  refine exists₂_congr fun other second => and_congr_left fun succeeded => ?_
  refine ⟨fun there => ⟨?_, there⟩, And.right⟩
  rintro rfl
  obtain rfl := Option.some.inj (here.symm.trans there)
  exact unfinished succeeded.2.2

theorem recorded_set (still : ¬ next.Succeeded) :
    World.Recorded ⟨after, world.writers.set index next, given, world.moved⟩ := by
  intro key bytes
  rw [mem_moved_iff recorded here unfinished]
  refine exists₂_congr fun other second => and_congr_left fun succeeded => ?_
  rw [getElem?_set_eq_some here]
  refine ⟨.inr, Or.rec (fun changed => ?_) id⟩
  rw [changed.2] at succeeded
  exact absurd succeeded.2.2 still

theorem recorded_record : World.Recorded
    ⟨after, world.writers.set index { writer with rest := .done (.ok ()) }, given,
      (writer.key, writer.bytes) :: world.moved⟩ := by
  intro key bytes
  simp only [List.mem_cons, Prod.mk.injEq, mem_moved_iff recorded here unfinished,
    getElem?_set_eq_some here, or_and_right, exists_or]
  refine or_congr ⟨?_, ?_⟩ .rfl
  · rintro ⟨rfl, rfl⟩
    exact ⟨index, _, ⟨rfl, rfl⟩, rfl, rfl, rfl⟩
  · rintro ⟨_, _, ⟨-, rfl⟩, rfl, rfl, -⟩
    exact ⟨rfl, rfl⟩

end recorded

structure Sound (directory : String) (start : Files) (world : World) : Prop where
  staged : Staged directory world
  settled : Settled directory start world.files world.moved (world.Pending directory)
  recorded : world.Recorded

namespace Sound

variable {start : Files}

theorem begin (start : Files) : Sound directory start { files := start } where
  staged := by constructor <;> simp
  settled := .begin start
  recorded := by simp [World.Recorded]

theorem keeps_refl (files : Files) : files.Keeps files := fun _ => id

theorem same_text (sound : Sound directory start world)
    (here : world.writers[index]? = some writer) (text : String) (named : writer.text = some text) :
    (∃ count < world.given writer.process, text = uniqueText writer.process count) ∧
      ∀ other second, other ≠ index → world.writers[other]? = some second →
        second.text ≠ some text :=
  ⟨sound.staged.text here named, fun _ _ different there alike =>
    different (sound.staged.unique there here alike named)⟩

/-- A request failed. -/
theorem fails (sound : Sound directory start world)
    (here : world.writers[index]? = some writer) (unfinished : ¬ writer.Succeeded)
    (error : Error) : Sound directory start (world.resume index writer (.done (.error error))) := by
  have entry := sound.staged.entry here
  constructor
  case staged =>
    exact sound.staged.set here (keeps_refl _) (fun _ _ _ => id) (fun _ => Nat.le_refl _) entry
      (.finished rfl) fun _ named => sound.same_text here _ named
  case settled =>
    refine sound.settled.mono fun _ pending => pending_set here pending fun _ named _ => ?_
    exact ⟨nofun, named, rfl⟩
  case recorded => exact recorded_set sound.recorded here unfinished nofun

theorem makeDirs (sound : Sound directory start world)
    (here : world.writers[index]? = some writer) (unfinished : ¬ writer.Succeeded)
    (unnamed : writer.text = none) {after : Files}
    (made : world.files.makeDirs directory = .ok after) :
    Sound directory start ({ world with files := after }.resume index writer
      (naming directory writer.key writer.bytes)) := by
  have entry := sound.staged.entry here
  obtain ⟨left, there, -⟩ := makeDirs_spec made
  constructor
  case staged =>
    refine sound.staged.set here (keeps_of_makeDirs made) (fun _ _ _ whole => ?_)
      (fun _ => Nat.le_refl _) entry (.naming rfl unnamed there)
      fun _ named => sound.same_text here _ named
    obtain same | ⟨-, none, -⟩ := left _
    · rw [same, whole]
    · simp [whole] at none
  case settled =>
    refine (sound.settled.makeDirs made).mono fun _ pending =>
      pending_set here pending fun _ named => ?_
    simp [unnamed] at named
  case recorded => exact recorded_set sound.recorded here unfinished nofun

theorem fresh (sound : Sound directory start world)
    (here : world.writers[index]? = some writer) (unfinished : ¬ writer.Succeeded)
    (unnamed : writer.text = none)
    (made : Made directory world.files) :
    let text := uniqueText writer.process (world.given writer.process)
    Sound directory start ((world.issue writer.process).resume index
      { writer with text := some text } (writing directory writer.key writer.bytes text)) := by
  have entry := sound.staged.entry here
  constructor
  case staged =>
    refine sound.staged.set here (keeps_refl _) (fun _ _ _ => id) (fun _ => Nat.le_add_right _ _)
      entry (.writing rfl rfl made) fun text named => ?_
    obtain rfl := Option.some.inj named
    refine ⟨⟨world.given writer.process, by simp [World.issue], rfl⟩, ?_⟩
    intro other second different there alike
    obtain ⟨count, less, same⟩ := sound.staged.text there alike
    obtain ⟨processes, rfl⟩ := uniqueText_inj same
    rw [processes] at less
    exact Nat.lt_irrefl _ less
  case settled =>
    refine sound.settled.mono fun _ pending => pending_set here pending fun _ named => ?_
    simp [unnamed] at named
  case recorded => exact recorded_set sound.recorded here unfinished nofun

section temporary

variable {text : String}

theorem write (sound : Sound directory start world)
    (here : world.writers[index]? = some writer) (unfinished : ¬ writer.Succeeded)
    (named : writer.text = some text)
    (made : Made directory world.files) {after : Files} (written : world.files.write
      (temporaryPath directory writer.key text) writer.bytes = .ok after) :
    Sound directory start ({ world with files := after }.resume index writer
      (moving directory writer.key text)) := by
  have entry := sound.staged.entry here
  have left := get?_of_written written
  constructor
  case staged =>
    refine sound.staged.set here (keeps_of_write written) (fun different there alike whole => ?_)
      (fun _ => Nat.le_refl _) entry
      (.moving rfl named (made.keeps (keeps_of_write written)) (by rw [left, if_pos rfl]))
      fun _ named => sound.same_text here _ named
    rw [left, if_neg (sound.staged.temporaryOf_ne here there different named alike), whole]
  case settled =>
    obtain ⟨count, -, rfl⟩ := sound.staged.text here named
    refine (sound.settled.write entry made written).mono fun location pending => ?_
    obtain pending | rfl := pending
    · exact pending_set here pending fun _ named _ => ⟨nofun, named, rfl⟩
    · exact ⟨index, _, _, List.getElem?_set_self (List.getElem?_eq_some_iff.1 here).1, nofun, named,
        rfl⟩
  case recorded => exact recorded_set sound.recorded here unfinished nofun

theorem rename (sound : Sound directory start world)
    (here : world.writers[index]? = some writer) (unfinished : ¬ writer.Succeeded)
    (named : writer.text = some text)
    (made : Made directory world.files)
    (whole : world.files.get? (temporaryOf directory writer.key text) = some (.file writer.bytes))
    {after : Files} (renamed : world.files.rename (temporaryPath directory writer.key text)
      (pathOf directory writer.key) = .ok after) :
    Sound directory start ((world.record writer after).resume index writer (.done (.ok ()))) := by
  have entry := sound.staged.entry here
  obtain ⟨count, -, unique⟩ := sound.staged.text here named
  have left := get?_of_moved whole renamed
  constructor
  case staged =>
    refine sound.staged.set here (keeps_of_rename renamed) (fun different there alike held => ?_)
      (fun _ => Nat.le_refl _) entry (.finished rfl) fun _ named => sound.same_text here _ named
    change after.get? _ = _
    rw [left, if_neg (sound.staged.temporaryOf_ne_placeOf there alike entry),
      if_neg (sound.staged.temporaryOf_ne here there different named alike), held]
  case settled =>
    subst unique
    refine (sound.settled.rename entry made whole renamed).mono fun location pending => ?_
    refine pending_set here pending.1 fun text own same => absurd same ?_
    rw [named] at own
    obtain rfl := Option.some.inj own
    exact pending.2
  case recorded => exact recorded_record sound.recorded here unfinished

/-- A part of the temporary file was written. -/
theorem spill (sound : Sound directory start world)
    (here : world.writers[index]? = some writer) (named : writer.text = some text)
    (rest : writer.rest = writing directory writer.key writer.bytes text)
    (made : Made directory world.files) {bytes : Bytes} {after : Files}
    (written : world.files.write (temporaryPath directory writer.key text) bytes = .ok after) :
    Sound directory start { world with files := after } := by
  have entry := sound.staged.entry here
  have left := get?_of_written written
  have same : world.writers.set index writer = world.writers := by
    obtain ⟨inside, rfl⟩ := List.getElem?_eq_some_iff.1 here
    exact List.set_getElem_self inside
  constructor
  case staged =>
    have staged := @Staged.set _ _ _ _ after writer world.given world.moved sound.staged here
      (keeps_of_write written)
      (fun different there alike whole => by
        rw [left, if_neg (sound.staged.temporaryOf_ne here there different named alike), whole])
      (fun _ => Nat.le_refl _) entry (.writing rest named (made.keeps (keeps_of_write written)))
      (sound.same_text here)
    rwa [same] at staged
  case settled =>
    obtain ⟨count, -, rfl⟩ := sound.staged.text here named
    refine (sound.settled.write entry made written).mono fun location pending => ?_
    obtain pending | rfl := pending
    · exact pending
    · exact ⟨index, writer, _, here, Writer.not_succeeded rest nofun, named, rfl⟩
  case recorded => exact sound.recorded

end temporary

theorem starts (sound : Sound directory start world) (process : Nat) {key : String}
    (entry : IsEntry key) (bytes : Bytes) :
    Sound directory start (world.step directory (.start process key bytes)) := by
  constructor
  case staged =>
    constructor
    case entry =>
      intro i found there
      obtain there | ⟨-, rfl⟩ := getElem?_append_eq_some.1 there
      · exact sound.staged.entry there
      · exact entry
    case stage =>
      intro i found there
      obtain there | ⟨-, rfl⟩ := getElem?_append_eq_some.1 there
      · exact sound.staged.stage there
      · exact .opening rfl rfl
    case text =>
      intro i found there text named
      obtain there | ⟨-, rfl⟩ := getElem?_append_eq_some.1 there
      · exact sound.staged.text there named
      · cases named
    case unique =>
      intro i j first second atFirst atSecond text named alike
      obtain before | ⟨-, rfl⟩ := getElem?_append_eq_some.1 atFirst
      · obtain there | ⟨-, rfl⟩ := getElem?_append_eq_some.1 atSecond
        · exact sound.staged.unique before there named alike
        · cases alike
      · cases named
  case settled =>
    refine sound.settled.mono fun location pending => ?_
    obtain ⟨i, found, text, there, unfinished⟩ := pending
    exact ⟨i, found, text, getElem?_append_eq_some.2 (.inl there), unfinished⟩
  case recorded =>
    intro key bytes
    refine (sound.recorded key bytes).trans (exists₂_congr fun i found => ?_)
    refine and_congr_left fun succeeded => ?_
    rw [World.step, getElem?_append_eq_some]
    refine ⟨.inl, Or.rec id fun started => ?_⟩
    rw [started.2] at succeeded
    cases succeeded.2.2

/-- The reply to a writer, at each of its stages. -/
theorem reply (sound : Sound directory start world)
    (here : world.writers[index]? = some writer) :
    Sound directory start (world.reply index writer) := by
  unfold World.reply
  cases sound.staged.stage here with
  | opening rest unnamed =>
    rw [put_eq] at rest
    have unfinished := Writer.not_succeeded rest nofun
    rw [rest]
    simp only [World.change]
    split
    · exact sound.fails here unfinished _
    · next made => exact sound.makeDirs here unfinished unnamed made
  | naming rest unnamed made =>
    have unfinished := Writer.not_succeeded rest nofun
    rw [rest, naming]
    exact sound.fresh here unfinished unnamed made
  | writing rest named made =>
    have unfinished := Writer.not_succeeded rest nofun
    rw [rest, writing]
    simp only [World.change]
    split
    · exact sound.fails here unfinished _
    · next written => exact sound.write here unfinished named made written
  | moving rest named made whole =>
    have unfinished := Writer.not_succeeded rest nofun
    rw [rest, moving]
    dsimp only
    split
    · exact sound.fails here unfinished _
    · next renamed => exact sound.rename here unfinished named made whole renamed
  | finished rest =>
    rw [rest]
    exact sound

theorem refuse (sound : Sound directory start world)
    (here : world.writers[index]? = some writer) (cause : IoFault) :
    Sound directory start (world.refuse index writer cause) := by
  unfold World.refuse
  cases sound.staged.stage here with
  | opening rest unnamed =>
    rw [put_eq] at rest
    have unfinished := Writer.not_succeeded rest nofun
    rw [rest]
    exact sound.fails here unfinished _
  | naming rest unnamed made =>
    rw [rest, naming]
    exact sound
  | writing rest named made =>
    have unfinished := Writer.not_succeeded rest nofun
    rw [rest, writing]
    exact sound.fails here unfinished _
  | moving rest named made whole =>
    have unfinished := Writer.not_succeeded rest nofun
    rw [rest, moving]
    exact sound.fails here unfinished _
  | finished rest =>
    rw [rest]
    exact sound

theorem spills (sound : Sound directory start world)
    (here : world.writers[index]? = some writer) (count : Nat) :
    Sound directory start (world.spill writer count) := by
  unfold World.spill
  cases sound.staged.stage here with
  | opening rest unnamed =>
    rw [rest, put_eq]
    exact sound
  | naming rest unnamed made =>
    rw [rest, naming]
    exact sound
  | writing rest named made =>
    rw [rest, writing]
    dsimp only
    split
    · exact sound
    · next written => exact sound.spill here named rest made written
  | moving rest named made whole =>
    rw [rest, moving]
    exact sound
  | finished rest =>
    rw [rest]
    exact sound

theorem step (sound : Sound directory start world) {move : Move}
    (entry : ∀ process key bytes, move = .start process key bytes → IsEntry key) :
    Sound directory start (world.step directory move) := by
  cases move with
  | start process key bytes => exact sound.starts process (entry _ _ _ rfl) bytes
  | advance index =>
    unfold World.step
    dsimp only
    split
    · exact sound
    · next here => exact sound.reply here
  | refuse index cause =>
    unfold World.step
    dsimp only
    split
    · exact sound
    · next here => exact sound.refuse here cause
  | spill index count =>
    unfold World.step
    dsimp only
    split
    · exact sound
    · next here => exact sound.spills here count

/-- Whatever happens, the invariant holds. -/
theorem run {moves : List Move} (sound : Sound directory start world)
    (entries : ∀ process key bytes, .start process key bytes ∈ moves → IsEntry key) :
    Sound directory start (world.run directory moves) := by
  induction moves generalizing world with
  | nil => exact sound
  | cons move moves ih =>
    refine ih (sound.step fun process key bytes same => ?_) fun process key bytes member => ?_
    · exact entries process key bytes (same ▸ .head _)
    · exact entries process key bytes (.tail _ member)

end Sound

end Arbor.Cache.Directory
