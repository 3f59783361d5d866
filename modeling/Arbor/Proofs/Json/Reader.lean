import Arbor.Build
import Arbor.Proofs.Outcome

/-!
# What readers make of written texts

A reader takes a text for a value if it consumes exactly this text and returns the value, whatever
follows it. What follows a value in a document is a delimiter, or nothing. Some texts stand for a
value that cannot be written: there a reader may also stop, but it never returns another value. Both
are one statement with a condition under which the reader is sure to return.

## Main definitions

* `Reads`: a reader takes a text for a value.
* `Gathers`: members of an object are taken one after the other.

## Main statements

* `bytesOf_eq`: the bytes of a text are those of its characters.
* `Reads.array`, `Reads.object`: lists and objects are read if their items and members are.
-/

namespace Arbor.Json

open Build (bytesOf)

/-! ## Bytes of a text -/

theorem toList_loop (bytes : ByteArray) (i : Nat) (taken : List UInt8) :
    ByteArray.toList.loop bytes i taken = taken.reverse ++ bytes.data.toList.drop i := by
  fun_induction ByteArray.toList.loop bytes i taken with
  | case1 i taken less ih =>
    have less : i < bytes.data.toList.length := less
    have read : bytes.get! i = bytes.data.toList[i] := getElem!_pos bytes.data i less
    rw [ih, read, List.reverse_cons, List.append_assoc, List.singleton_append,
      ← List.drop_eq_getElem_cons less]
  | case2 i taken less =>
    have ended : bytes.data.toList.length ≤ i := Nat.le_of_not_lt less
    rw [List.drop_eq_nil_of_le ended, List.append_nil]

theorem toList_utf8Encode (cs : List Char) :
    cs.utf8Encode.toList = cs.flatMap String.utf8EncodeChar := by
  rw [ByteArray.toList, toList_loop, List.utf8Encode, List.toList_data_toByteArray]
  rfl

theorem bytesOf_ofList (cs : List Char) :
    bytesOf (String.ofList cs) = cs.flatMap String.utf8EncodeChar := by
  rw [bytesOf, String.toUTF8_eq_toByteArray, String.toByteArray_ofList, toList_utf8Encode]

theorem bytesOf_eq (text : String) :
    bytesOf text = text.toList.flatMap String.utf8EncodeChar := by
  rw [← bytesOf_ofList, String.ofList_toList]

@[simp]
theorem bytesOf_append (a b : String) : bytesOf (a ++ b) = bytesOf a ++ bytesOf b := by
  simp [bytesOf_eq]

theorem bytesOf_intercalate (first : String) (others : List String) :
    bytesOf (String.intercalate "," (first :: others)) =
      bytesOf first ++ others.flatMap (commaByte :: bytesOf ·) := by
  have comma : bytesOf "," = [commaByte] := (bytesOf_eq _).trans rfl
  induction others generalizing first with
  | nil => simp
  | cons second others ih =>
    simp [String.intercalate_cons_cons, ih, comma]

theorem bytesOf_quote (text : String) :
    bytesOf (quote text) =
      quoteByte :: (text.toList.flatMap fun c => bytesOf (escapeChar c)) ++ [quoteByte] := by
  have fold (cs : List Char) (written : String) :
      bytesOf (cs.foldl (fun written c => written ++ escapeChar c) written) =
        bytesOf written ++ cs.flatMap fun c => bytesOf (escapeChar c) := by
    induction cs generalizing written with
    | nil => simp
    | cons c cs ih => simp [ih]
  have mark : bytesOf "\"" = [quoteByte] := (bytesOf_eq _).trans rfl
  have empty : bytesOf "" = [] := (bytesOf_eq _).trans rfl
  simp [quote, fold, mark, empty]

/-- The key of a member, with the byte before it and the colon behind it. -/
theorem bytesOf_key {text name : String} {mark : UInt8}
    (spelled : text.toList.flatMap String.utf8EncodeChar =
      mark :: quoteByte :: (name.toList.flatMap fun c =>
        (escapeChar c).toList.flatMap String.utf8EncodeChar) ++ [quoteByte, colonByte]) :
    bytesOf text = mark :: bytesOf (quote name) ++ [colonByte] := by
  rw [bytesOf_quote, bytesOf_eq, spelled]
  simp [bytesOf_eq]

/-! ## Results and readers -/

/-- The result is `a`. If not `sure` it may also be a problem. -/
def Yields {α : Type} (sure : Prop) (result : Except Problem α) (a : α) : Prop :=
  result = .ok a ∨ ¬ sure ∧ ∃ problem, result = .error problem

variable {α β σ : Type} {sure : Prop}

theorem Yields.of_eq {result : Except Problem α} {a : α} (h : result = .ok a) :
    Yields sure result a := .inl h

theorem Yields.of_error {result : Except Problem α} {a : α} {problem : Problem} (unsure : ¬ sure)
    (h : result = .error problem) : Yields sure result a := .inr ⟨unsure, problem, h⟩

theorem Yields.bind {result : Except Problem α} {next : α → Except Problem β} {a : α} {b : β}
    (h : Yields sure result a) (k : Yields sure (next a) b) : Yields sure (result >>= next) b := by
  obtain rfl | ⟨unsure, problem, rfl⟩ := h
  · exact k
  · exact .of_error unsure rfl

theorem Yields.eq_ok {result : Except Problem α} {a : α} (h : Yields sure result a) (holds : sure) :
    result = .ok a := h.resolve_right fun error => error.1 holds

theorem Yields.eq_of_ok {result : Except Problem α} {a b : α} (h : Yields sure result a)
    (success : result = .ok b) : b = a := by
  obtain rfl | ⟨-, problem, rfl⟩ := h
  · exact (Except.ok.inj success).symm
  · simp at success

/-- What follows begins with one of the allowed bytes, if there is anything. -/
def Follows (allowed rest : List UInt8) : Prop := ∀ byte ∈ rest.head?, byte ∈ allowed

theorem follows_nil (allowed : List UInt8) : Follows allowed [] := by simp [Follows]

theorem follows_cons {allowed : List UInt8} {byte : UInt8} (h : byte ∈ allowed)
    (rest : List UInt8) : Follows allowed (byte :: rest) := by simpa [Follows] using h

def delimiters : List UInt8 := [commaByte, colonByte, closeBracket, closeBrace]

abbrev Delimited (rest : List UInt8) : Prop := Follows delimiters rest

def commas (texts : List (List UInt8)) : List UInt8 := texts.flatMap (commaByte :: ·)

theorem delimited_commas (texts : List (List UInt8)) {rest : List UInt8} (last : Delimited rest) :
    Delimited (commas texts ++ rest) := by
  cases texts with
  | nil => exact last
  | cons => exact follows_cons (by decide) _

theorem length_le_commas (texts : List (List UInt8)) : texts.length ≤ (commas texts).length := by
  induction texts with
  | nil => exact Nat.zero_le _
  | cons text texts ih => simp [commas] at ih ⊢; omega

/-- The reader takes `text` for `a`. -/
def Reads (sure : Prop) (reader : Reader α) (text : List UInt8) (a : α) : Prop :=
  ∀ rest, Delimited rest → Yields sure (reader.run (text ++ rest)) (a, rest)

theorem Reads.map {reader : Reader α} {text : List UInt8} {a : α} (h : Reads sure reader text a)
    (f : α → β) : Reads sure (do return f (← reader)) text (f a) := by
  intro rest delimited
  rw [StateT.run_bind]
  exact (h rest delimited).bind (.of_eq rfl)

theorem Reads.bind_pure {reader : Reader α} {next : α → Reader β} {text : List UInt8} {a : α}
    {b : β} (h : Reads sure reader text a) (k : next a = pure b) :
    Reads sure (reader >>= next) text b := by
  intro rest delimited
  rw [StateT.run_bind]
  refine (h rest delimited).bind (.of_eq ?_)
  dsimp only
  rw [k]
  rfl

theorem Reads.document {reader : Reader α} {text : List UInt8} {a : α}
    (h : Reads sure reader text a) : Yields sure (Reader.document reader text) a := by
  have whole := h [] (follows_nil _)
  rw [List.append_nil] at whole
  exact whole.bind (.of_eq rfl)

namespace Reader

variable {byte : UInt8} {rest : List UInt8}

theorem run_peek (visible : isBlank byte = false) :
    peek.run (byte :: rest) = .ok (some byte, byte :: rest) := by
  simp [peek, blanks, visible]

theorem run_symbol (visible : isBlank byte = false) :
    (symbol byte).run (byte :: rest) = .ok ((), rest) := by
  simp [symbol, run_peek visible, advance]

/-! ## Lists -/

theorem run_arrayTail_close (item : Reader α) (fuel : Nat) (taken : Array α) :
    (arrayTail item (fuel + 1) taken).run (closeBracket :: rest) = .ok (taken, rest) := by
  simp [arrayTail, run_peek (show isBlank closeBracket = false by rfl), advance]

theorem run_arrayTail_comma (item : Reader α) (fuel : Nat) (taken : Array α) :
    (arrayTail item (fuel + 1) taken).run (commaByte :: rest) =
      item.run rest >>= fun (a, rest) => (arrayTail item fuel (taken.push a)).run rest := by
  simp [arrayTail, run_peek (show isBlank commaByte = false by rfl), advance,
    show commaByte ≠ closeBracket by decide]

theorem yields_arrayTail {item : Reader α} {texts : List (List UInt8)} {values : List α}
    (items : List.Forall₂ (Reads sure item) texts values) {fuel : Nat}
    (enough : texts.length < fuel) (taken : Array α) :
    Yields sure
      ((arrayTail item fuel taken).run (commas texts ++ closeBracket :: rest))
      (taken ++ values.toArray, rest) := by
  induction items generalizing fuel taken with
  | nil =>
    obtain ⟨fuel, rfl⟩ := Nat.exists_eq_add_of_lt enough
    exact .of_eq (by simp [commas, run_arrayTail_close])
  | @cons text a texts values first others ih =>
    obtain ⟨fuel, rfl⟩ : ∃ more, fuel = more + 1 := ⟨fuel - 1, by omega⟩
    rw [commas, List.flatMap_cons, List.append_assoc, List.cons_append, run_arrayTail_comma]
    refine (first _ (delimited_commas texts (follows_cons (by decide) rest))).bind ?_
    simpa using ih (Nat.lt_of_succ_lt_succ enough) (taken.push a)

theorem run_array_close (item : Reader α) :
    (array item).run (openBracket :: closeBracket :: rest) = .ok (#[], rest) := by
  simp [array, run_symbol (show isBlank openBracket = false by rfl),
    run_peek (show isBlank closeBracket = false by rfl), advance]

theorem run_array_cons (item : Reader α) (visible : isBlank byte = false)
    (inside : byte ≠ closeBracket) :
    (array item).run (openBracket :: byte :: rest) =
      item.run (byte :: rest) >>= fun (a, rest) =>
        (arrayTail item (rest.length + 1) #[a]).run rest := by
  simp [array, run_symbol (show isBlank openBracket = false by rfl), run_peek visible, inside]

/-! ## Objects -/

theorem run_objectTail_close (key : Reader String) (member : String → σ → Reader σ) (fuel : Nat)
    (state : σ) :
    (objectTail key member (fuel + 1) state).run (closeBrace :: rest) = .ok (state, rest) := by
  simp [objectTail, run_peek (show isBlank closeBrace = false by rfl), advance]

theorem run_objectTail_comma (key : Reader String) (member : String → σ → Reader σ) (fuel : Nat)
    (state : σ) :
    (objectTail key member (fuel + 1) state).run (commaByte :: rest) =
      key.run rest >>= fun (name, rest) => (symbol colonByte).run rest >>= fun (_, rest) =>
        (member name state).run rest >>= fun (state, rest) =>
          (objectTail key member fuel state).run rest := by
  simp [objectTail, run_peek (show isBlank commaByte = false by rfl), advance,
    show commaByte ≠ closeBrace by decide]

theorem run_object_cons (key : Reader String) (member : String → σ → Reader σ) (initial : σ)
    (visible : isBlank byte = false) (inside : byte ≠ closeBrace) :
    (object key member initial).run (openBrace :: byte :: rest) =
      key.run (byte :: rest) >>= fun (name, rest) => (symbol colonByte).run rest >>=
        fun (_, rest) => (member name initial).run rest >>= fun (state, rest) =>
          (objectTail key member (rest.length + 1) state).run rest := by
  simp [object, run_symbol (show isBlank openBrace = false by rfl), run_peek visible, inside]

end Reader

def enclose (opening closing : UInt8) : List (List UInt8) → List UInt8
  | [] => [opening, closing]
  | first :: others => opening :: first ++ commas others ++ [closing]

theorem enclose_cons (opening closing : UInt8) (first : List UInt8) (others : List (List UInt8)) :
    enclose opening closing (first :: others) = opening :: first ++ commas others ++ [closing] :=
  rfl

/-- A list of texts in brackets. -/
theorem enclose_bytesOf (opening closing : UInt8) (texts : List String) :
    opening :: bytesOf (String.intercalate "," texts) ++ [closing] =
      enclose opening closing (texts.map bytesOf) := by
  cases texts with
  | nil =>
    rw [String.intercalate_nil, bytesOf_eq]
    rfl
  | cons first others =>
    rw [bytesOf_intercalate]
    simp [enclose, commas, List.flatMap_map]

/-- A list is read if its items are. The first byte of an item must not look like the end. -/
theorem Reads.array {item : Reader α} {texts : List (List UInt8)} {values : List α}
    (items : List.Forall₂ (Reads sure item) texts values)
    (begins : ∀ text ∈ texts, ∃ more, text = openBrace :: more) :
    Reads sure (Reader.array item) (enclose openBracket closeBracket texts) values.toArray := by
  intro rest delimited
  cases items with
  | nil => exact .of_eq (Reader.run_array_close item)
  | @cons text a texts values first others =>
    obtain ⟨more, rfl⟩ := begins text List.mem_cons_self
    simp only [enclose, List.cons_append, List.append_assoc]
    rw [Reader.run_array_cons item rfl (by decide)]
    refine (first _ (delimited_commas texts (follows_cons (by decide) rest))).bind ?_
    have enough : texts.length < (commas texts ++ closeBracket :: rest).length + 1 := by
      have := length_le_commas texts
      simp only [List.length_append]
      omega
    simpa using Reader.yields_arrayTail others enough #[a]

/-- Members taken one after the other lead from a state to a state. -/
inductive Gathers (sure : Prop) (member : String → σ → Reader σ) :
    σ → List (String × List UInt8) → σ → Prop
  | nil (state : σ) : Gathers sure member state [] state
  | cons {state next last : σ} {name : String} {text : List UInt8}
      {others : List (String × List UInt8)} : Reads sure (member name state) text next →
      Gathers sure member next others last → Gathers sure member state ((name, text) :: others) last

theorem Gathers.append {member : String → σ → Reader σ} {state next last : σ}
    {members others : List (String × List UInt8)} (h : Gathers sure member state members next)
    (k : Gathers sure member next others last) :
    Gathers sure member state (members ++ others) last := by
  induction h with
  | nil => exact k
  | cons first _ ih => exact .cons first (ih k)

def member (named : String × List UInt8) : List UInt8 :=
  bytesOf (quote named.1) ++ colonByte :: named.2

theorem yields_objectTail {key : Reader String} {read : String → σ → Reader σ}
    (keys : ∀ name, Reads sure key (bytesOf (quote name)) name) {state last : σ}
    {members : List (String × List UInt8)} (gathers : Gathers sure read state members last)
    {fuel : Nat} (enough : members.length < fuel) (rest : List UInt8) :
    Yields sure
      ((Reader.objectTail key read fuel state).run
        (commas (members.map member) ++ closeBrace :: rest))
      (last, rest) := by
  induction gathers generalizing fuel with
  | nil =>
    obtain ⟨fuel, rfl⟩ := Nat.exists_eq_add_of_lt enough
    exact .of_eq (by simp [commas, Reader.run_objectTail_close])
  | @cons state next last name text others first more ih =>
    obtain ⟨fuel, rfl⟩ : ∃ more, fuel = more + 1 := ⟨fuel - 1, by omega⟩
    rw [List.map_cons, commas, List.flatMap_cons, List.append_assoc, List.cons_append,
      Reader.run_objectTail_comma, member, List.append_assoc]
    refine (keys name _ (follows_cons (by decide) _)).bind ?_
    refine (Yields.of_eq (Reader.run_symbol rfl)).bind ?_
    refine (first _ (delimited_commas _ (follows_cons (by decide) rest))).bind ?_
    exact ih (Nat.lt_of_succ_lt_succ enough)

/-- An object is read if its keys are, and its members one after the other. -/
theorem Reads.object {key : Reader String} {read : String → σ → Reader σ}
    (keys : ∀ name, Reads sure key (bytesOf (quote name)) name) {state next last : σ}
    {name : String} {text : List UInt8} {others : List (String × List UInt8)}
    (first : Reads sure (read name state) text next)
    (gathers : Gathers sure read next others last) :
    Reads sure (Reader.object key read state)
      (enclose openBrace closeBrace (((name, text) :: others).map member)) last := by
  intro rest delimited
  obtain ⟨more, begins⟩ : ∃ more, bytesOf (quote name) = quoteByte :: more :=
    ⟨_, bytesOf_quote name⟩
  simp only [List.map_cons, enclose, member, begins, List.cons_append, List.append_assoc,
    List.nil_append]
  rw [Reader.run_object_cons key read state rfl (by decide), ← List.cons_append, ← begins]
  refine (keys name _ (follows_cons (by decide) _)).bind ?_
  refine (Yields.of_eq (Reader.run_symbol rfl)).bind ?_
  refine (first _ (delimited_commas _ (follows_cons (by decide) rest))).bind ?_
  refine yields_objectTail keys gathers ?_ rest
  have := length_le_commas (others.map member)
  simp only [List.length_append, List.length_map] at this ⊢
  omega

/-- A value that may be a list or an object is read if it is an object. -/
theorem Reads.of_object {list object : Reader α} {text : List UInt8} {a : α}
    (h : Reads sure object (openBrace :: text) a) :
    Reads sure (do if (← Reader.peek) = some openBracket then list else object)
      (openBrace :: text) a := by
  intro rest delimited
  have read := h rest delimited
  simp only [List.cons_append, StateT.run_bind,
    Reader.run_peek (show isBlank openBrace = false by rfl), ok_bind, Option.some.injEq,
    show openBrace ≠ openBracket by decide, if_false] at read ⊢
  exact read

end Arbor.Json
