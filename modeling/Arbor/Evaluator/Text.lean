import Arbor.Evaluator.Instruction
import Arbor.Text.Space

/-!
# Functions as text

Evaluators are stored as text. A text holds any number of functions one after the other. Words are
separated by spaces, and a semicolon starts a comment that ends with the line. A function is the
word `function` and its blocks, a block is its instructions and its exit, and each of these is a
name with some numbers. Every list is preceded by its length. Floats are written as bit patterns.
-/

namespace Arbor.Evaluator

/-- An instruction or an exit as a name and some numbers. -/
structure Item where
  name : String
  numbers : List Nat

namespace Item

def ofInstruction : Instruction → Item
  | .word bits => ⟨"word", [bits.toNat]⟩
  | .single number => ⟨"single", [number.toBits.toNat]⟩
  | .add operand amount => ⟨"add", [operand, amount.toNat]⟩
  | .load address offset => ⟨"load", [address, offset.toUInt32.toNat]⟩
  | .sqrt operand => ⟨"sqrt", [operand]⟩
  | .ln operand => ⟨"ln", [operand]⟩
  | .compare comparator left right => ⟨comparator.name, [left, right]⟩
  | .extend operand => ⟨"extend", [operand]⟩
  | .shiftLeft operand amount => ⟨"shift_left", [operand, amount.toNat]⟩
  | .or left right => ⟨"or", [left, right]⟩
  | .keep cell operand => ⟨"keep", [cell, operand]⟩
  | .reload cell => ⟨"reload", [cell]⟩

def toInstruction? : Item → Option Instruction
  | ⟨"word", [bits]⟩ => some (.word bits.toUInt64)
  | ⟨"single", [number]⟩ => some (.single (.ofBits number.toUInt32))
  | ⟨"add", [operand, amount]⟩ => some (.add operand amount.toUInt64)
  | ⟨"load", [address, offset]⟩ => some (.load address offset.toUInt32.toInt32)
  | ⟨"sqrt", [operand]⟩ => some (.sqrt operand)
  | ⟨"ln", [operand]⟩ => some (.ln operand)
  | ⟨"extend", [operand]⟩ => some (.extend operand)
  | ⟨"shift_left", [operand, amount]⟩ => some (.shiftLeft operand amount.toUInt64)
  | ⟨"or", [left, right]⟩ => some (.or left right)
  | ⟨"keep", [cell, operand]⟩ => some (.keep cell operand)
  | ⟨"reload", [cell]⟩ => some (.reload cell)
  | ⟨name, [left, right]⟩ => (Comparator.ofName? name).map (.compare · left right)
  | _ => none

def ofExit : Exit → Item
  | .jump target => ⟨"jump", [target]⟩
  | .branch operand onTrue onFalse => ⟨"branch", [operand, onTrue, onFalse]⟩
  | .switch operand targets otherwise => ⟨"switch", operand :: otherwise :: targets.toList⟩
  | .finish operand => ⟨"finish", [operand]⟩
  | .trap => ⟨"trap", []⟩

def toExit? : Item → Option Exit
  | ⟨"jump", [target]⟩ => some (.jump target)
  | ⟨"branch", [operand, onTrue, onFalse]⟩ => some (.branch operand onTrue onFalse)
  | ⟨"switch", operand :: otherwise :: targets⟩ => some (.switch operand targets.toArray otherwise)
  | ⟨"finish", [operand]⟩ => some (.finish operand)
  | ⟨"trap", []⟩ => some .trap
  | _ => none

def words (item : Item) : List String :=
  item.name :: toString item.numbers.length :: item.numbers.map toString

end Item

def Block.words (block : Block) : List String :=
  toString block.body.length :: block.body.flatMap (Item.ofInstruction · |>.words)
    ++ (Item.ofExit block.exit).words

def Function.words (function : Function) : List String :=
  "function" :: toString function.blocks.size :: function.blocks.toList.flatMap Block.words

def Function.toText (function : Function) : String :=
  String.intercalate " " function.words ++ "\n"

/-- The word that ends here, if there is one. It has been read in reverse. -/
def finishWord (word : List Char) : List String :=
  if word.isEmpty then [] else [String.ofList word.reverse]

/-- The words of a text from here on, where `word` has been read in reverse. -/
def wordsFrom : (text : List Char) → (word : List Char) → (inComment : Bool) → List String
  | [], word, _ => finishWord word
  | c :: rest, _, true => wordsFrom rest [] (c != '\n')
  | c :: rest, word, false =>
    if c = ';' then finishWord word ++ wordsFrom rest [] true
    else if Text.isSpace c then finishWord word ++ wordsFrom rest [] false
    else wordsFrom rest (c :: word) false

def wordsOf (text : String) : List String := wordsFrom text.toList [] false

def numberOf? (word : String) : Option Nat :=
  if word.toList ≠ [] ∧ word.toList.all Char.isDigit then some (Nat.ofDigitChars 10 word.toList 0)
  else none

/-! Readers return what stands at the front of some words, and the words after it. -/

def readNumber : List String → Option (Nat × List String)
  | word :: rest => (numberOf? word).map (·, rest)
  | [] => none

def readMany {α : Type} (read : List String → Option (α × List String)) :
    (count : Nat) → List String → Option (List α × List String)
  | 0, words => some ([], words)
  | count + 1, words => do
    let (first, words) ← read words
    let (others, words) ← readMany read count words
    return (first :: others, words)

def readItem : List String → Option (Item × List String)
  | name :: words => do
    let (count, words) ← readNumber words
    let (numbers, words) ← readMany readNumber count words
    return (⟨name, numbers⟩, words)
  | [] => none

def readInstruction (words : List String) : Option (Instruction × List String) := do
  let (item, words) ← readItem words
  return (← item.toInstruction?, words)

def readBlock (words : List String) : Option (Block × List String) := do
  let (count, words) ← readNumber words
  let (body, words) ← readMany readInstruction count words
  let (item, words) ← readItem words
  return (⟨body, ← item.toExit?⟩, words)

/-- The functions that some words hold. Every function takes one word at least. -/
def readFunctions : (fuel : Nat) → List String → Option (List Function)
  | _, [] => some []
  | fuel + 1, "function" :: words => do
    let (count, words) ← readNumber words
    let (blocks, words) ← readMany readBlock count words
    return ⟨blocks.toArray⟩ :: (← readFunctions fuel words)
  | _, _ => none

def functionsOf (text : String) : Option (List Function) :=
  let words := wordsOf text
  readFunctions words.length words

end Arbor.Evaluator
