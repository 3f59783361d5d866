/-!
# TOML text

Blanks, line ends, comments, strings and keys. A reader consumes a prefix of the characters and
returns a value and the rest; it fails without saying why.

## Main definitions

* `Reader`: a reader of values of a type.
* `gap`: what may stand between the items of a list.
* `text`: a string in any of the four notations.
* `key`: a dotted key.
-/

namespace Arbor.Toml

abbrev Reader := StateT (List Char) Option

def isBlank (c : Char) : Bool := c == ' ' || c == '\t'

/-- The characters of comments and strings: all but control characters, except the tabulator. -/
def isText (c : Char) : Bool := c == '\t' || (0x20 ≤ c.toNat && c.toNat ≠ 0x7f)

def isBare (c : Char) : Bool := c.isAlphanum || c == '_' || c == '-'

def afterNewline? : List Char → Option (List Char)
  | '\n' :: rest => some rest
  | '\r' :: '\n' :: rest => some rest
  | _ => none

def skipLines : List Char → List Char
  | '\r' :: '\n' :: rest => skipLines rest
  | c :: rest => if isBlank c || c == '\n' then skipLines rest else c :: rest
  | [] => []

/-- Skips blanks, line ends and comments, from inside of a comment or not. A comment ends with its
line. -/
def skipGap : (inComment : Bool) → List Char → Option (List Char)
  | inComment, [] => if inComment then none else some []
  | _, '\n' :: rest => skipGap false rest
  | _, '\r' :: '\n' :: rest => skipGap false rest
  | true, c :: rest => if isText c then skipGap true rest else none
  | false, c :: rest =>
    if isBlank c then skipGap false rest
    else if c == '#' then skipGap true rest
    else some (c :: rest)

namespace Reader

def peek : Reader (Option Char) := do
  return (← get).head?

def advance : Reader Unit := modify List.tail

def symbol (c : Char) : Reader Unit := do
  if (← peek) = some c then advance else failure

def blanks : Reader Unit := modify (·.dropWhile isBlank)

def gap : Reader Unit := fun input => (skipGap false input).map ((), ·)

def lineEnd : Reader Unit := fun input =>
  if input.isEmpty then some ((), []) else (afterNewline? input).map ((), ·)

/-- The rest of a line, which is blank except for a comment. -/
def lineRest : Reader Unit := do
  blanks
  if (← peek) = some '#' then modify (·.dropWhile isText)
  lineEnd

end Reader

def hexDigit? (c : Char) : Option Nat :=
  if c.isDigit then some (c.toNat - '0'.toNat)
  else if 'a' ≤ c ∧ c ≤ 'f' then some (c.toNat - 'a'.toNat + 10)
  else if 'A' ≤ c ∧ c ≤ 'F' then some (c.toNat - 'A'.toNat + 10)
  else none

/-- The character whose number is given by `count` hexadecimal digits. -/
def numbered? (count : Nat) (input : List Char) : Option Char := do
  let digits ← (input.take count).mapM hexDigit?
  let n := digits.foldl (fun n digit => n * 16 + digit) 0
  if digits.length = count ∧ n.isValidChar then some (Char.ofNat n) else none

/-- The character that an escape stands for and what follows it, after the backslash. -/
def unescape? : List Char → Option (Char × List Char)
  | [] => none
  | kind :: rest =>
    match kind with
    | 'b' => some ('\x08', rest)
    | 't' => some ('\t', rest)
    | 'n' => some ('\n', rest)
    | 'f' => some ('\x0c', rest)
    | 'r' => some ('\r', rest)
    | '"' => some ('"', rest)
    | '\\' => some ('\\', rest)
    | 'u' => (numbered? 4 rest).map (·, rest.drop 4)
    | 'U' => (numbered? 8 rest).map (·, rest.drop 8)
    | _ => none

theorem length_of_unescape? {input rest : List Char} {c : Char}
    (h : unescape? input = some (c, rest)) : rest.length < input.length := by
  unfold unescape? at h
  split at h
  · simp at h
  · split at h
    case h_8 | h_9 =>
      obtain ⟨_, _, same⟩ := Option.map_eq_some_iff.1 h
      simp only [Prod.mk.injEq] at same
      simp only [← same.2, List.length_drop, List.length_cons]
      omega
    all_goals simp_all

theorem length_of_afterNewline? {input rest : List Char} (h : afterNewline? input = some rest) :
    rest.length < input.length := by
  unfold afterNewline? at h
  split at h
  · obtain rfl := Option.some.inj h
    exact Nat.lt_succ_self _
  · obtain rfl := Option.some.inj h
    exact Nat.lt_succ_of_lt (Nat.lt_succ_self _)
  · exact absurd h (by simp)

theorem length_skipLines (input : List Char) : (skipLines input).length ≤ input.length := by
  fun_induction skipLines input with
  | case1 rest ih => simp only [List.length_cons]; omega
  | case2 c rest _ _ ih => simp only [List.length_cons]; omega
  | case3 c rest _ _ => exact Nat.le_refl _
  | case4 => exact Nat.le_refl _

/-- The characters of a string on one line, after its opening quote and in front of them `taken` in
reverse, and what follows the closing quote. Escapes mean something between double quotes only. -/
def line (quote : Char) (input taken : List Char) : Option (String × List Char) :=
  match input with
  | [] => none
  | c :: rest =>
    if c = quote then some (String.ofList taken.reverse, rest)
    else if quote = '"' ∧ c = '\\' then
      match h : unescape? rest with
      | none => none
      | some (meaning, after) =>
        have := length_of_unescape? h
        line quote after (meaning :: taken)
    else if isText c then line quote rest (c :: taken)
    else none
termination_by input.length

/-- The characters of a string on several lines, after its three opening quotes. A line end counts
as a line feed. One or two quotes are part of the string, also in front of the closing ones. A
backslash at the end of a line drops the blanks and line ends that follow. -/
def lines (quote : Char) (input taken : List Char) : Option (String × List Char) :=
  match input with
  | [] => none
  | c :: rest =>
    if c = quote then
      let run := ((c :: rest).takeWhile (· == quote)).length
      if run < 3 then lines quote rest (c :: taken)
      else if run ≤ 5 then
        some (String.ofList (List.replicate (run - 3) quote ++ taken).reverse,
          (c :: rest).drop run)
      else none
    else if quote = '"' ∧ c = '\\' then
      match h : afterNewline? (rest.dropWhile isBlank) with
      | some after =>
        have := length_of_afterNewline? h
        have : (rest.dropWhile isBlank).length ≤ rest.length :=
          (List.dropWhile_sublist isBlank).length_le
        have := length_skipLines after
        lines quote (skipLines after) taken
      | none =>
        match h : unescape? rest with
        | none => none
        | some (meaning, after) =>
          have := length_of_unescape? h
          lines quote after (meaning :: taken)
    else
      match h : afterNewline? (c :: rest) with
      | some after =>
        have := length_of_afterNewline? h
        lines quote after ('\n' :: taken)
      | none => if isText c then lines quote rest (c :: taken) else none
termination_by input.length
decreasing_by all_goals simp only [List.length_cons] at *; omega

namespace Reader

def quoted (quote : Char) : Reader String := do
  symbol quote
  fun input => line quote input []

/-- A string. A line end after three opening quotes is not part of it. -/
def text (quote : Char) : Reader String := do
  if (← get).take 3 = [quote, quote, quote] then
    modify (·.drop 3)
    modify fun input => (afterNewline? input).getD input
    fun input => lines quote input []
  else quoted quote

def keyPart : Reader String := do
  match ← peek with
  | some '"' => quoted '"'
  | some '\'' => quoted '\''
  | _ =>
    let bare := (← get).takeWhile isBare
    if bare.isEmpty then failure
    modify (·.dropWhile isBare)
    return String.ofList bare

/-- The parts of a key with dots between them. Every part but the first takes at least its dot. -/
def keyParts : (fuel : Nat) → Reader (List String)
  | 0 => failure
  | fuel + 1 => do
    blanks
    let part ← keyPart
    blanks
    if (← peek) = some '.' then
      advance
      return part :: (← keyParts fuel)
    else return [part]

def depthLimit : Nat := 80

/-- A key: the path of its table and its last part. -/
def key : Reader (List String × String) := do
  let parts ← keyParts ((← get).length + 1)
  match parts.getLast? with
  | none => failure
  | some last => if parts.length < depthLimit then return (parts.dropLast, last) else failure

end Reader

end Arbor.Toml
