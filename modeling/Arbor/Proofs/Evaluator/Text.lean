import Arbor.Evaluator.Text
import Arbor.Proofs.Float32
import Arbor.Proofs.Json.Literal

/-!
# Reading functions back

The text of a function is split into the words that it was written with, and the words are read as
the function. Every part is read with an arbitrary rest behind it, so that a function is read back
part by part.

## Main statements

* `wordsOf_toText`: the words of a text.
* `readItem_words`, `readBlock_words`: parts are read back from their words.
* `functionsOf_toText`: a function is read back from its text.
-/

namespace Arbor.Evaluator

/-! ## Words of a text -/

def IsWord (word : String) : Prop :=
  word.toList ≠ [] ∧ ∀ c ∈ word.toList, c ≠ ';' ∧ Text.isSpace c = false

instance (word : String) : Decidable (IsWord word) :=
  @instDecidableAnd _ _ inferInstance (List.decidableBAll _ _)

theorem wordsFrom_append {cs : List Char} (plain : ∀ c ∈ cs, c ≠ ';' ∧ Text.isSpace c = false)
    (rest word : List Char) :
    wordsFrom (cs ++ rest) word false = wordsFrom rest (cs.reverse ++ word) false := by
  induction cs generalizing word with
  | nil => rfl
  | cons c cs ih =>
    obtain ⟨semicolon, space⟩ := plain c List.mem_cons_self
    rw [List.cons_append, wordsFrom, if_neg semicolon, space, if_neg Bool.false_ne_true,
      ih fun c mem => plain c (List.mem_cons_of_mem _ mem)]
    simp

theorem wordsFrom_word {word : String} (isWord : IsWord word) {c : Char}
    (space : Text.isSpace c = true) (rest : List Char) :
    wordsFrom (word.toList ++ c :: rest) [] false = word :: wordsFrom rest [] false := by
  have semicolon : c ≠ ';' := by
    rintro rfl
    exact absurd space (by decide)
  rw [wordsFrom_append isWord.2, wordsFrom, if_neg semicolon, if_pos space]
  simp [finishWord, isWord.1]

theorem wordsFrom_intercalate {first : String} {others : List String}
    (words : ∀ word ∈ first :: others, IsWord word) :
    wordsFrom ((String.intercalate " " (first :: others)).toList ++ ['\n']) [] false =
      first :: others := by
  induction others generalizing first with
  | nil =>
    rw [String.intercalate_singleton]
    exact wordsFrom_word (words first List.mem_cons_self) (by decide) []
  | cons second others ih =>
    have space : (" " : String).toList = [' '] := rfl
    rw [String.intercalate_cons_cons, String.toList_append, String.toList_append, space,
      List.append_assoc, List.append_assoc, List.singleton_append,
      wordsFrom_word (words first List.mem_cons_self) (by decide),
      ih fun word mem => words word (List.mem_cons_of_mem _ mem)]

/-! ## Words of functions -/

theorem isWord_toString (n : Nat) : IsWord (toString n) := by
  rw [Nat.toString_eq_ofList_toDigits, IsWord, String.toList_ofList]
  refine ⟨Nat.toDigits_ne_nil, fun c mem => ?_⟩
  have digit := Json.toNat_of_isDigit (Nat.isDigit_of_mem_toDigits (by decide) (by decide) mem)
  refine ⟨fun semicolon => ?_, ?_⟩
  · rw [semicolon] at digit
    exact absurd digit (by decide)
  · simp [Text.isSpace, Text.spaceRanges]
    omega

theorem isWord_ofInstruction (instruction : Instruction) :
    IsWord (Item.ofInstruction instruction).name := by
  cases instruction <;> dsimp only [Item.ofInstruction]
  case compare comparator _ _ => cases comparator <;> decide
  all_goals decide

theorem isWord_ofExit (exit : Exit) : IsWord (Item.ofExit exit).name := by
  cases exit <;> dsimp only [Item.ofExit] <;> decide

theorem isWord_itemWords {item : Item} (name : IsWord item.name) :
    ∀ word ∈ item.words, IsWord word := by
  simp only [Item.words, List.forall_mem_cons, List.forall_mem_map]
  exact ⟨name, isWord_toString _, fun number _ => isWord_toString number⟩

theorem isWord_blockWords (block : Block) : ∀ word ∈ block.words, IsWord word := by
  simp only [Block.words, List.forall_mem_cons, List.forall_mem_append, List.cons_append,
    List.forall_mem_flatMap]
  exact ⟨isWord_toString _,
    fun instruction _ => isWord_itemWords (isWord_ofInstruction instruction),
    isWord_itemWords (isWord_ofExit block.exit)⟩

theorem wordsOf_toText (function : Function) : wordsOf function.toText = function.words := by
  have opening : IsWord "function" := by decide
  rw [wordsOf, Function.toText, String.toList_append]
  refine wordsFrom_intercalate (List.forall_mem_cons.2 ⟨opening, ?_⟩)
  simp only [List.forall_mem_cons, List.forall_mem_flatMap]
  exact ⟨isWord_toString _, fun block _ => isWord_blockWords block⟩

/-! ## Reading words -/

theorem numberOf?_toString (n : Nat) : numberOf? (toString n) = some n := by
  rw [Nat.toString_eq_ofList_toDigits, numberOf?, String.toList_ofList, if_pos,
    Nat.ofDigitChars_ten_toDigits]
  refine ⟨Nat.toDigits_ne_nil, ?_⟩
  rw [List.all_eq_true]
  exact fun c mem => Nat.isDigit_of_mem_toDigits (by decide) (by decide) mem

theorem readNumber_toString (n : Nat) (rest : List String) :
    readNumber (toString n :: rest) = some (n, rest) := by
  simp only [readNumber, numberOf?_toString, Option.map_some]

theorem readMany_flatMap {α : Type} {item : List String → Option (α × List String)}
    {words : α → List String} (reads : ∀ a rest, item (words a ++ rest) = some (a, rest))
    (values : List α) (rest : List String) :
    readMany item values.length (values.flatMap words ++ rest) = some (values, rest) := by
  induction values with
  | nil => rfl
  | cons a values ih => simp [readMany, reads, ih]

theorem readMany_toString (values : List Nat) (rest : List String) :
    readMany readNumber values.length (values.map toString ++ rest) = some (values, rest) := by
  rw [← List.flatMap_pure_eq_map]
  exact readMany_flatMap readNumber_toString values rest

theorem readItem_words (item : Item) (rest : List String) :
    readItem (item.words ++ rest) = some (item, rest) := by
  simp only [Item.words, List.cons_append, readItem, readNumber_toString, Option.bind_eq_bind,
    Option.bind_some, readMany_toString]
  rfl

/-- No number and no name is lost. -/
theorem toInstruction?_ofInstruction (instruction : Instruction) :
    (Item.ofInstruction instruction).toInstruction? = some instruction := by
  cases instruction with
  | word bits => simp [Item.ofInstruction, Item.toInstruction?]
  | single number => simp [Item.ofInstruction, Item.toInstruction?, Float32.ofBits_toBits]
  | add operand amount => simp [Item.ofInstruction, Item.toInstruction?]
  | load address offset => simp [Item.ofInstruction, Item.toInstruction?]
  | compare comparator left right => cases comparator <;> rfl
  | shiftLeft operand amount => simp [Item.ofInstruction, Item.toInstruction?]
  | _ => rfl

theorem toExit?_ofExit (exit : Exit) : (Item.ofExit exit).toExit? = some exit := by
  cases exit <;> rfl

theorem readInstruction_words (instruction : Instruction) (rest : List String) :
    readInstruction ((Item.ofInstruction instruction).words ++ rest) =
      some (instruction, rest) := by
  simp [readInstruction, readItem_words, toInstruction?_ofInstruction]

theorem readBlock_words (block : Block) (rest : List String) :
    readBlock (block.words ++ rest) = some (block, rest) := by
  simp only [Block.words, List.cons_append, List.append_assoc, readBlock, readNumber_toString,
    Option.bind_eq_bind, Option.bind_some, readMany_flatMap readInstruction_words, readItem_words,
    toExit?_ofExit]
  rfl

theorem readFunctions_words (function : Function) (fuel : Nat) :
    readFunctions (fuel + 1) function.words = some [function] := by
  have blocks := readMany_flatMap readBlock_words function.blocks.toList []
  have ended : readFunctions fuel [] = some [] := by cases fuel <;> rfl
  rw [Array.length_toList, List.append_nil] at blocks
  simp only [Function.words, readFunctions, readNumber_toString, Option.bind_eq_bind,
    Option.bind_some, blocks, ended]
  rfl

/-- A function is read back from its text. -/
theorem functionsOf_toText (function : Function) :
    functionsOf function.toText = some [function] := by
  rw [functionsOf, wordsOf_toText]
  exact readFunctions_words function _

end Arbor.Evaluator
