import Arbor.Proofs.Json.Number

/-!
# What readers refuse

A reader stops on a text if it returns no value, whatever follows the text. A list stops on the
first item that cannot be read, and an object on the first such member: what stands before it is
read, and what stands behind it is never looked at.

## Main definitions

* `Stops`: a reader returns nothing for a text.

## Main statements

* `Stops.array`, `Stops.object`: lists and objects stop with their items and members.
* `stops_float32`: a float that is not finite stops the reader of floats.
-/

namespace Arbor.Json

open Build (bytesOf)

variable {α β σ : Type}

/-- The reader finds no value in `text`. -/
def Stops (reader : Reader α) (text : List UInt8) : Prop :=
  ∀ rest, Delimited rest → reader.run (text ++ rest) = .error .malformed

theorem bind_error {result : Except Problem α} {problem : Problem} (h : result = .error problem)
    (next : α → Except Problem β) : (result >>= next) = .error problem := by
  rw [h, error_bind]

theorem Yields.bind_error {result : Except Problem α} {next : α → Except Problem β} {a : α}
    {problem : Problem} (h : Yields True result a) (k : next a = .error problem) :
    (result >>= next) = .error problem := by
  rw [h.eq_ok trivial, ok_bind, k]

theorem Stops.bind {reader : Reader α} {text : List UInt8} (h : Stops reader text)
    (next : α → Reader β) : Stops (reader >>= next) text := by
  intro rest delimited
  rw [StateT.run_bind]
  exact bind_error (h rest delimited) _

theorem Stops.once {reader : Reader α} {text : List UInt8} (h : Stops reader text) :
    Stops (Reader.once none reader) text := h.bind _

theorem Stops.document {reader : Reader α} {text : List UInt8} (h : Stops reader text) :
    Reader.document reader text = .error .malformed := by
  have stop := h [] (follows_nil _)
  rw [List.append_nil] at stop
  exact bind_error stop _

/-! ## Lists -/

/-- Reading on after an item fails if the item stops the reader, or if what follows does. -/
theorem bind_error_of_item {item : Reader α} {text rest : List UInt8} (delimited : Delimited rest)
    (read : Stops item text ∨ ∃ a, Reads True item text a)
    {next : α × List UInt8 → Except Problem β}
    (later : ¬ Stops item text → ∀ a, next (a, rest) = .error .malformed) :
    (item.run (text ++ rest) >>= next) = .error .malformed := by
  by_cases stop : Stops item text
  · exact bind_error (stop rest delimited) _
  · obtain ⟨a, read⟩ := read.resolve_left stop
    exact (read rest delimited).bind_error (later stop a)

theorem run_arrayTail_of_stops {item : Reader α} {texts : List (List UInt8)}
    (items : ∀ text ∈ texts, Stops item text ∨ ∃ a, Reads True item text a)
    (bad : ∃ text ∈ texts, Stops item text) {fuel : Nat} (enough : texts.length < fuel)
    (taken : Array α) (rest : List UInt8) :
    (Reader.arrayTail item fuel taken).run (commas texts ++ closeBracket :: rest) =
      .error .malformed := by
  induction texts generalizing fuel taken with
  | nil => simp at bad
  | cons text texts ih =>
    obtain ⟨fuel, rfl⟩ : ∃ more, fuel = more + 1 := ⟨fuel - 1, by omega⟩
    rw [commas, List.flatMap_cons, List.append_assoc, List.cons_append, Reader.run_arrayTail_comma]
    refine bind_error_of_item (delimited_commas texts (follows_cons (by decide) rest))
      (items text List.mem_cons_self) fun fine a => ?_
    refine ih (fun other member => items other (List.mem_cons_of_mem _ member)) ?_
      (Nat.lt_of_succ_lt_succ enough) (taken.push a)
    grind

/-- A list with an item that cannot be read is refused. -/
theorem Stops.array {item : Reader α} {texts : List (List UInt8)}
    (items : ∀ text ∈ texts, Stops item text ∨ ∃ a, Reads True item text a)
    (bad : ∃ text ∈ texts, Stops item text)
    (begins : ∀ text ∈ texts, ∃ more, text = openBrace :: more) :
    Stops (Reader.array item) (enclose openBracket closeBracket texts) := by
  intro rest _
  cases texts with
  | nil => simp at bad
  | cons text texts =>
    obtain ⟨more, rfl⟩ := begins text List.mem_cons_self
    simp only [enclose, List.cons_append, List.append_assoc, List.nil_append]
    rw [Reader.run_array_cons item rfl (by decide), ← List.cons_append]
    refine bind_error_of_item (delimited_commas texts (follows_cons (by decide) rest))
      (items _ List.mem_cons_self) fun fine a => ?_
    refine run_arrayTail_of_stops
      (fun other member => items other (List.mem_cons_of_mem _ member)) ?_ ?_ #[a] rest
    · grind
    · have := length_le_commas texts
      simp only [List.length_append]
      omega

/-! ## Objects -/

section

variable {key : Reader String} {read : String → σ → Reader σ}

theorem run_object_member (keys : ∀ name, Reads True key (bytesOf (quote name)) name) (state : σ)
    (name : String) (text rest : List UInt8) :
    (Reader.object key read state).run (openBrace :: (member (name, text) ++ rest)) =
      (read name state).run (text ++ rest) >>= fun (next, rest) =>
        (Reader.objectTail key read (rest.length + 1) next).run rest := by
  obtain ⟨more, begins⟩ : ∃ more, bytesOf (quote name) = quoteByte :: more :=
    ⟨_, bytesOf_quote name⟩
  have colon : Delimited (colonByte :: (text ++ rest)) := follows_cons (by decide) _
  have named := (keys name _ colon).eq_ok trivial
  rw [member, begins, List.cons_append, List.cons_append,
    Reader.run_object_cons key read state rfl (by decide), List.append_assoc, ← List.cons_append,
    ← begins, List.cons_append, named]
  simp [Reader.run_symbol (show isBlank colonByte = false by rfl)]

theorem run_objectTail_member (keys : ∀ name, Reads True key (bytesOf (quote name)) name)
    (fuel : Nat) (state : σ) (name : String) (text rest : List UInt8) :
    (Reader.objectTail key read (fuel + 1) state).run (commaByte :: (member (name, text) ++ rest)) =
      (read name state).run (text ++ rest) >>= fun (next, rest) =>
        (Reader.objectTail key read fuel next).run rest := by
  have colon : Delimited (colonByte :: (text ++ rest)) := follows_cons (by decide) _
  have named := (keys name _ colon).eq_ok trivial
  rw [Reader.run_objectTail_comma, member, List.append_assoc, List.cons_append, named]
  simp [Reader.run_symbol (show isBlank colonByte = false by rfl)]

theorem run_objectTail_of_stops (keys : ∀ name, Reads True key (bytesOf (quote name)) name)
    {state last : σ} {members : List (String × List UInt8)}
    (gathers : Gathers True read state members last) {name : String} {text : List UInt8}
    (stop : Stops (read name last) text) (others : List (String × List UInt8)) {fuel : Nat}
    (enough : members.length < fuel) (rest : List UInt8) :
    (Reader.objectTail key read fuel state).run
      (commas ((members ++ (name, text) :: others).map member) ++ closeBrace :: rest) =
        .error .malformed := by
  induction gathers generalizing fuel with
  | nil state =>
    obtain ⟨fuel, rfl⟩ : ∃ more, fuel = more + 1 := ⟨fuel - 1, by omega⟩
    rw [List.nil_append, List.map_cons, commas, List.flatMap_cons, List.append_assoc,
      List.cons_append, run_objectTail_member keys]
    exact bind_error (stop _ (delimited_commas _ (follows_cons (by decide) rest))) _
  | @cons state next last name' text' members first more ih =>
    obtain ⟨fuel, rfl⟩ : ∃ more, fuel = more + 1 := ⟨fuel - 1, by omega⟩
    rw [List.cons_append, List.map_cons, commas, List.flatMap_cons, List.append_assoc,
      List.cons_append, run_objectTail_member keys]
    refine (first _ (delimited_commas _ (follows_cons (by decide) rest))).bind_error ?_
    exact ih stop (Nat.lt_of_succ_lt_succ enough)

/-- An object is refused at the first member that cannot be read. -/
theorem Stops.object (keys : ∀ name, Reads True key (bytesOf (quote name)) name) {state last : σ}
    {members : List (String × List UInt8)} (gathers : Gathers True read state members last)
    {name : String} {text : List UInt8} (stop : Stops (read name last) text)
    (others : List (String × List UInt8)) :
    Stops (Reader.object key read state)
      (enclose openBrace closeBrace ((members ++ (name, text) :: others).map member)) := by
  intro rest _
  -- The first member is read before the loop, so it is either the one that stops or not.
  cases gathers with
  | nil =>
    rw [List.nil_append, List.map_cons, enclose_cons, List.append_assoc, List.append_assoc,
      List.cons_append, run_object_member keys]
    exact bind_error (stop _ (delimited_commas _ (follows_cons (by decide) rest))) _
  | @cons _ next _ name' text' members first gathers =>
    rw [List.cons_append, List.map_cons, enclose_cons, List.append_assoc, List.append_assoc,
      List.cons_append, run_object_member keys]
    refine (first _ (delimited_commas _ (follows_cons (by decide) rest))).bind_error ?_
    refine run_objectTail_of_stops keys gathers stop others ?_ rest
    have := length_le_commas ((members ++ (name, text) :: others).map member)
    simp only [List.length_append, List.length_map, List.length_cons] at this ⊢
    omega

end

/-- A value that may be a list or an object is refused if it is an object that is. -/
theorem Stops.of_object {list object : Reader α} {text : List UInt8}
    (h : Stops object (openBrace :: text)) :
    Stops (do if (← Reader.peek) = some openBracket then list else object)
      (openBrace :: text) := by
  intro rest delimited
  have stop := h rest delimited
  simp only [List.cons_append, StateT.run_bind,
    Reader.run_peek (show isBlank openBrace = false by rfl), ok_bind, Option.some.injEq,
    show openBrace ≠ openBracket by decide, if_false] at stop ⊢
  exact stop

/-! ## Floats -/

/-- A float that is not finite is written as something that is no number. -/
theorem stops_float32 {x : Float32} (infinite : x.isFinite = false) :
    Stops Reader.float32 (bytesOf (floatText x)) := by
  intro rest _
  have valueless : Binary.ofFloat32? x = none := by
    have size := Float32.isFinite_iff x
    simpa [infinite] using size
  rw [floatText, valueless, bytesOf_eq]
  rfl

end Arbor.Json
