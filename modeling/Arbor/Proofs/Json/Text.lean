import Arbor.Proofs.Json.Reader

/-!
# Reading quoted strings

A string is read back from its quoted form. The escape of a character gives the bytes of the
character, so what is read are the bytes of the string.

## Main statements

* `stringBytes_escapeChar`: one character.
* `Reads.string`, `Reads.choice`: strings and names.
-/

namespace Arbor.Json

open Build (bytesOf)

variable {rest taken : List UInt8} {sure : Prop}

/-! ## One step -/

theorem stringBytes_quoteByte : stringBytes (quoteByte :: rest) taken = some (taken, rest) := by
  rw [stringBytes]
  simp

theorem stringBytes_backslashByte {meaning after : List UInt8}
    (h : unescape? rest = some (meaning, after)) :
    stringBytes (backslashByte :: rest) taken = stringBytes after (meaning.reverse ++ taken) := by
  rw [stringBytes]
  simp only [show backslashByte ≠ quoteByte by decide, if_false, if_true]
  split
  · simp_all
  · next found => simp_all

def isPlain (byte : UInt8) : Bool := byte != quoteByte && byte != backslashByte && 0x20 ≤ byte

theorem stringBytes_plain {byte : UInt8} (plain : isPlain byte = true) :
    stringBytes (byte :: rest) taken = stringBytes rest (byte :: taken) := by
  simp only [isPlain, Bool.and_eq_true, bne_iff_ne, decide_eq_true_eq] at plain
  obtain ⟨⟨notQuote, notBackslash⟩, visible⟩ := plain
  rw [stringBytes, if_neg notQuote, if_neg notBackslash, if_neg (UInt8.not_lt.2 visible)]

theorem stringBytes_append {bytes : List UInt8} (plain : ∀ byte ∈ bytes, isPlain byte = true) :
    stringBytes (bytes ++ rest) taken = stringBytes rest (bytes.reverse ++ taken) := by
  induction bytes generalizing taken with
  | nil => rfl
  | cons byte bytes ih =>
    rw [List.cons_append, stringBytes_plain (plain byte List.mem_cons_self),
      ih fun b mem => plain b (List.mem_cons_of_mem _ mem)]
    simp

/-! ## Characters -/

theorem isPlain_of_mem {c : Char} (notQuote : c ≠ '"') (notBackslash : c ≠ '\\')
    (visible : 0x20 ≤ c.toNat) {byte : UInt8} (mem : byte ∈ String.utf8EncodeChar c) :
    isPlain byte = true := by
  have quote : c.toNat ≠ 0x22 := fun h => notQuote (Char.toNat_inj.1 h)
  have backslash : c.toNat ≠ 0x5c := fun h => notBackslash (Char.toNat_inj.1 h)
  -- A byte of a longer encoding is at least 0x80, so only single bytes can be special.
  have size : byte.toNat = c.toNat ∨ 0x80 ≤ byte.toNat := by
    change byte ∈ (if c.toNat ≤ 127 then _ else _) at mem
    split_ifs at mem with ascii
    · left
      rw [List.mem_singleton.1 mem, UInt8.toNat_ofNat']
      change c.toNat % 256 = c.toNat
      omega
    all_goals
      right
      simp only [List.mem_cons, List.not_mem_nil, or_false] at mem
      obtain rfl | rfl | rfl | rfl := mem <;> rw [UInt8.toNat_ofNat'] <;> omega
  simp only [isPlain, Bool.and_eq_true, bne_iff_ne, decide_eq_true_eq, UInt8.le_iff_toNat_le, ne_eq,
    ← UInt8.toNat_inj]
  change (byte.toNat ≠ 0x22 ∧ byte.toNat ≠ 0x5c) ∧ 0x20 ≤ byte.toNat
  omega

theorem map_hexDigit? : ∀ n < 16,
    (String.utf8EncodeChar (hexChar n)).map hexDigit? = [some n] := by decide

theorem unescape?_control {c : Char} {high low : UInt8} (control : c.toNat < 0x20)
    (highDigit : hexDigit? high = some (c.toNat / 16))
    (lowDigit : hexDigit? low = some (c.toNat % 16)) :
    unescape? (0x75 :: 0x30 :: 0x30 :: high :: low :: rest) =
      some (String.utf8EncodeChar c, rest) := by
  have number : ((0 * 16 + 0) * 16 + c.toNat / 16) * 16 + c.toNat % 16 = c.toNat := by omega
  have word : hexWord? (0x30 :: 0x30 :: high :: low :: rest) = some (c.toNat, rest) := by
    simp only [hexWord?, highDigit, lowDigit, show hexDigit? 0x30 = some 0 from rfl, number]
  have trailing : isTrailing c.toNat = false := by
    simp [isTrailing]
    omega
  have leading : isLeading c.toNat = false := by
    simp [isLeading]
    omega
  change (unicode? (0x30 :: 0x30 :: high :: low :: rest)).map _ = _
  simp [unicode?, word, trailing, leading]

theorem stringBytes_escapeChar (c : Char) :
    stringBytes (bytesOf (escapeChar c) ++ rest) taken =
      stringBytes rest ((String.utf8EncodeChar c).reverse ++ taken) := by
  unfold escapeChar
  split
  case h_8 notQuote notBackslash _ _ _ _ _ =>
    split_ifs with control
    · obtain ⟨high, highEq, highDigit⟩ :=
        List.map_eq_singleton_iff.1 (map_hexDigit? (c.toNat / 16) (by omega))
      obtain ⟨low, lowEq, lowDigit⟩ :=
        List.map_eq_singleton_iff.1 (map_hexDigit? (c.toNat % 16) (by omega))
      simp only [bytesOf_ofList, List.flatMap_cons, List.flatMap_nil, highEq, lowEq]
      exact stringBytes_backslashByte (unescape?_control control highDigit lowDigit)
    · rw [Char.toString_eq_singleton, bytesOf_eq, String.toList_singleton, List.flatMap_singleton]
      exact stringBytes_append fun byte =>
        isPlain_of_mem notQuote notBackslash (Nat.le_of_not_lt control)
  all_goals
    rw [bytesOf_eq]
    exact stringBytes_backslashByte rfl

theorem stringBytes_quote (text : String) :
    stringBytes ((text.toList.flatMap fun c => bytesOf (escapeChar c)) ++ quoteByte :: rest) taken =
      some ((bytesOf text).reverse ++ taken, rest) := by
  rw [bytesOf_eq]
  induction text.toList generalizing taken with
  | nil => exact stringBytes_quoteByte
  | cons c cs ih =>
    rw [List.flatMap_cons, List.append_assoc, stringBytes_escapeChar, ih]
    simp

/-! ## Strings -/

theorem fromUTF8?_bytesOf (text : String) :
    String.fromUTF8? (ByteArray.mk (bytesOf text).toArray) = some text := by
  have bytes : ByteArray.mk (bytesOf text).toArray = text.toByteArray := by
    rw [bytesOf, String.toUTF8_eq_toByteArray, ByteArray.toList, toList_loop]
    rfl
  rw [bytes, String.fromUTF8?, dif_pos text.isValidUTF8]
  rfl

/-- A string is read back from its quoted form. -/
theorem Reads.string (text : String) : Reads sure Reader.string (bytesOf (quote text)) text := by
  intro rest _
  refine .of_eq ?_
  simp [Reader.string, bytesOf_quote, Reader.run_symbol (show isBlank quoteByte = false by rfl),
    stringBytes_quote, fromUTF8?_bytesOf]

/-- A name is read back as what it names. -/
theorem Reads.choice {α : Type} {named : String → Option α} {name : String} {a : α}
    (h : named name = some a) : Reads sure (Reader.choice named) (bytesOf (quote name)) a := by
  intro rest delimited
  have read : Yields sure (Reader.string.run (bytesOf (quote name) ++ rest)) (name, rest) :=
    Reads.string name rest delimited
  simp only [bytesOf_quote, List.cons_append] at read ⊢
  simp only [Reader.choice, StateT.run_bind,
    Reader.run_peek (show isBlank quoteByte = false by rfl), ok_bind, Option.some.injEq,
    show quoteByte ≠ openBrace by decide, if_false]
  exact read.bind (.of_eq (by simp only [h]; rfl))

end Arbor.Json
