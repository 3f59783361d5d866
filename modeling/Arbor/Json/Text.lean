import Arbor.Json.Reader

/-!
# JSON strings

Quoting and reading of strings. A quote, a backslash and the control characters are escaped, all
other characters stand for themselves. Reading accepts every escape of JSON; the two halves of a
surrogate pair must come together, and the bytes have to be UTF-8.
-/

namespace Arbor.Json

def hexChar (n : Nat) : Char := (Nat.toDigits 16 n).headD '0'

def escapeChar (c : Char) : String :=
  match c with
  | '"' => "\\\""
  | '\\' => "\\\\"
  | '\n' => "\\n"
  | '\r' => "\\r"
  | '\t' => "\\t"
  | '\x08' => "\\b"
  | '\x0c' => "\\f"
  | c =>
    if c.toNat < 0x20 then
      String.ofList ['\\', 'u', '0', '0', hexChar (c.toNat / 16), hexChar (c.toNat % 16)]
    else c.toString

def quote (text : String) : String :=
  "\"" ++ text.toList.foldl (fun written c => written ++ escapeChar c) "" ++ "\""

/-- The number of a `\u` escape, after its `u`. -/
def hexWord? : List UInt8 → Option (Nat × List UInt8)
  | a :: b :: c :: d :: rest =>
    match hexDigit? a, hexDigit? b, hexDigit? c, hexDigit? d with
    | some a, some b, some c, some d => some (((a * 16 + b) * 16 + c) * 16 + d, rest)
    | _, _, _, _ => none
  | _ => none

def isLeading (n : Nat) : Bool := 0xd800 ≤ n && n ≤ 0xdbff

def isTrailing (n : Nat) : Bool := 0xdc00 ≤ n && n ≤ 0xdfff

/-- The character of a surrogate pair, after the number of its first half. -/
def surrogate? (leading : Nat) : List UInt8 → Option (Char × List UInt8)
  | 0x5c :: 0x75 :: more =>
    match hexWord? more with
    | some (n, rest) =>
      if isTrailing n then
        some (Char.ofNat (0x10000 + (leading - 0xd800) * 0x400 + (n - 0xdc00)), rest)
      else none
    | none => none
  | _ => none

def unicode? (bytes : List UInt8) : Option (Char × List UInt8) :=
  match hexWord? bytes with
  | some (n, rest) =>
    if isTrailing n then none
    else if isLeading n then surrogate? n rest
    else some (Char.ofNat n, rest)
  | none => none

def unescape? : List UInt8 → Option (List UInt8 × List UInt8)
  | [] => none
  | kind :: rest =>
    match kind with
    | 0x22 => some ([0x22], rest)
    | 0x5c => some ([0x5c], rest)
    | 0x2f => some ([0x2f], rest)
    | 0x62 => some ([0x08], rest)
    | 0x66 => some ([0x0c], rest)
    | 0x6e => some ([0x0a], rest)
    | 0x72 => some ([0x0d], rest)
    | 0x74 => some ([0x09], rest)
    | 0x75 => (unicode? rest).map fun (c, rest) => (String.utf8EncodeChar c, rest)
    | _ => none

theorem length_of_hexWord? {bytes rest : List UInt8} {n : Nat}
    (h : hexWord? bytes = some (n, rest)) : rest.length ≤ bytes.length := by
  unfold hexWord? at h
  split at h
  · split at h
    · simp only [Option.some.injEq, Prod.mk.injEq] at h
      simp only [← h.2, List.length_cons]
      omega
    · simp at h
  · simp at h

theorem length_of_surrogate? {leading : Nat} {bytes rest : List UInt8} {c : Char}
    (h : surrogate? leading bytes = some (c, rest)) : rest.length ≤ bytes.length := by
  unfold surrogate? at h
  split at h
  · split at h
    · next word =>
      have := length_of_hexWord? word
      split at h
      · simp only [Option.some.injEq, Prod.mk.injEq] at h
        simp only [← h.2, List.length_cons]
        omega
      · simp at h
    · simp at h
  · simp at h

theorem length_of_unicode? {bytes rest : List UInt8} {c : Char}
    (h : unicode? bytes = some (c, rest)) : rest.length ≤ bytes.length := by
  unfold unicode? at h
  split at h
  · next word =>
    have outer := length_of_hexWord? word
    split at h
    · simp at h
    · split at h
      · exact Nat.le_trans (length_of_surrogate? h) outer
      · simp only [Option.some.injEq, Prod.mk.injEq] at h
        exact h.2 ▸ outer
  · simp at h

theorem length_of_unescape? {bytes rest taken : List UInt8}
    (h : unescape? bytes = some (taken, rest)) : rest.length < bytes.length := by
  unfold unescape? at h
  split at h
  · simp at h
  · split at h
    case h_9 =>
      obtain ⟨⟨c, after⟩, read, same⟩ := Option.map_eq_some_iff.1 h
      obtain ⟨_, rfl⟩ : String.utf8EncodeChar c = taken ∧ after = rest := by simpa using same
      exact Nat.lt_succ_of_le (length_of_unicode? read)
    all_goals simp_all

/-- The bytes of a string after its opening quote, in reverse in front of `taken`, and what follows
the closing quote. -/
def stringBytes (bytes : List UInt8) (taken : List UInt8) : Option (List UInt8 × List UInt8) :=
  match bytes with
  | [] => none
  | byte :: rest =>
    if byte = quoteByte then some (taken, rest)
    else if byte = backslashByte then
      match h : unescape? rest with
      | none => none
      | some (meaning, after) =>
        have := length_of_unescape? h
        stringBytes after (meaning.reverse ++ taken)
    else if byte < 0x20 then none
    else stringBytes rest (byte :: taken)
termination_by bytes.length

def Reader.string : Reader String := do
  symbol quoteByte
  match stringBytes (← get) [] with
  | none => malformed
  | some (taken, rest) =>
    match String.fromUTF8? (ByteArray.mk taken.reverse.toArray) with
    | none => malformed
    | some text =>
      set rest
      return text

/-- One of a list of names, written as a string or as an object with the name as its only key. -/
def Reader.choice {α : Type} (named : String → Option α) : Reader α := do
  let pick (name : String) : Reader α :=
    match named name with
    | none => malformed
    | some a => pure a
  if (← peek) = some openBrace then
    advance
    let a ← pick (← string)
    symbol colonByte
    null
    symbol closeBrace
    return a
  else pick (← string)

end Arbor.Json
