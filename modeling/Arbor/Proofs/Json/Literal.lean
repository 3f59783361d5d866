import Arbor.Proofs.Json.Reader

/-!
# Reading number literals

A literal is read back part by part, and its value is a significand with a power of ten, as long as
the significand fits a word.

## Main definitions

* `Literal.Spelled`: the parts of a literal are as the grammar asks for.
* `Literal.text`: the bytes of a literal.

## Main statements

* `Literal.value_eq`: the value of a literal with a fraction or an exponent.
* `Literal.run_literal`: a literal is read back.
-/

namespace Arbor.Json

open Build (bytesOf)

/-! ## Digits -/

theorem toNat_of_isDigit {c : Char} (digit : c.isDigit = true) : 48 ≤ c.toNat ∧ c.toNat ≤ 57 := by
  simpa [Char.isDigit, UInt32.le_iff_toNat_le] using digit

def digitBytes (cs : List Char) : List UInt8 := cs.map fun c => UInt8.ofNat c.toNat

@[simp]
theorem length_digitBytes (cs : List Char) : (digitBytes cs).length = cs.length := List.length_map _

theorem bytesOf_digits {cs : List Char} (digits : ∀ c ∈ cs, c.isDigit = true) :
    bytesOf (String.ofList cs) = digitBytes cs := by
  rw [bytesOf_ofList, digitBytes]
  induction cs with
  | nil => rfl
  | cons c cs ih =>
    have ascii : c.val.toNat ≤ 127 := by
      have := (toNat_of_isDigit (digits c List.mem_cons_self)).2
      change c.toNat ≤ 127
      omega
    have single : String.utf8EncodeChar c = [UInt8.ofNat c.toNat] := if_pos ascii
    rw [List.flatMap_cons, single, ih fun c mem => digits c (List.mem_cons_of_mem _ mem)]
    rfl

theorem isDigit_of_mem_digitBytes {cs : List Char} (digits : ∀ c ∈ cs, c.isDigit = true)
    {byte : UInt8} (mem : byte ∈ digitBytes cs) : isDigit byte = true := by
  obtain ⟨c, inside, rfl⟩ := List.mem_map.1 mem
  have := toNat_of_isDigit (digits c inside)
  simp [isDigit, UInt8.le_iff_toNat_le]
  omega

namespace Literal

def valueFrom (n : Nat) (digits : List UInt8) : Nat :=
  digits.foldl (fun n digit => n * 10 + (digit - 0x30).toNat) n

theorem valueFrom_append (n : Nat) (a b : List UInt8) :
    valueFrom n (a ++ b) = valueFrom (valueFrom n a) b := List.foldl_append

theorem valueFrom_digitBytes {cs : List Char} (digits : ∀ c ∈ cs, c.isDigit = true) (n : Nat) :
    valueFrom n (digitBytes cs) = Nat.ofDigitChars 10 cs n := by
  induction cs generalizing n with
  | nil => simp [digitBytes, valueFrom]
  | cons c cs ih =>
    have range := toNat_of_isDigit (digits c List.mem_cons_self)
    have digit : (UInt8.ofNat c.toNat - 0x30).toNat = c.toNat - '0'.toNat := by
      change _ = c.toNat - 48
      rw [UInt8.toNat_sub_of_le] <;> simp [UInt8.le_iff_toNat_le] <;> omega
    rw [Nat.ofDigitChars_cons, ← ih fun c mem => digits c (List.mem_cons_of_mem _ mem),
      Nat.mul_comm, ← digit]
    rfl

theorem le_valueFrom (n : Nat) (digits : List UInt8) : n ≤ valueFrom n digits := by
  induction digits generalizing n with
  | nil => exact Nat.le_refl n
  | cons digit digits ih =>
    have next : valueFrom n (digit :: digits) =
      valueFrom (n * 10 + (digit - 0x30).toNat) digits := rfl
    have := ih (n * 10 + (digit - 0x30).toNat)
    omega

theorem absorb_eq {digits : List UInt8} {significand : Nat} (taken : Nat)
    (small : valueFrom significand digits < Word.limit) :
    absorb digits significand taken =
      (valueFrom significand digits, taken + digits.length, []) := by
  induction digits generalizing significand taken with
  | nil => rfl
  | cons digit digits ih =>
    rw [absorb, if_pos (Nat.lt_of_le_of_lt (le_valueFrom _ digits) small), ih (taken + 1) small,
      List.length_cons, Nat.add_assoc, Nat.add_comm 1]
    rfl

theorem absorb_dropped {digits : List UInt8} {significand taken : Nat}
    (start : significand < Word.limit) (all : (absorb digits significand taken).2.2 = []) :
    valueFrom significand digits < Word.limit := by
  induction digits generalizing significand taken with
  | nil => exact start
  | cons digit digits ih =>
    rw [absorb] at all
    split_ifs at all with less
    · exact ih less all

def shift (literal : Literal) : Int :=
  match literal.exponent with
  | none => 0
  | some (down, digits) => if down then -(valueOf digits : Int) else valueOf digits

/-- A literal with a fraction or an exponent is a significand with a power of ten. -/
theorem value_eq (literal : Literal)
    (real : literal.fraction.isSome = true ∨ literal.exponent.isSome = true)
    (small : valueOf (literal.whole ++ literal.fraction.getD []) < Word.limit) :
    literal.value =
      (scale (valueOf (literal.whole ++ literal.fraction.getD []))
        (-((literal.fraction.getD []).length : Int) + literal.shift)).map
          (.real literal.negative) := by
  have joined : valueOf (literal.whole ++ literal.fraction.getD []) =
    valueFrom (valueFrom 0 literal.whole) (literal.fraction.getD []) := valueFrom_append 0 _ _
  rw [joined] at small ⊢
  have whole := absorb_eq 0 (Nat.lt_of_le_of_lt (le_valueFrom _ _) small)
  have fraction := absorb_eq 0 small
  obtain ⟨negative, digits, places, exponent⟩ := literal
  cases places <;> cases exponent <;> simp_all [value, shift]

/-! ## Literals -/

def Digits (digits : List UInt8) : Prop := digits ≠ [] ∧ ∀ byte ∈ digits, isDigit byte = true

structure Spelled (literal : Literal) : Prop where
  whole : Digits literal.whole
  leading : literal.whole.head? = some 0x30 → literal.whole.length = 1
  fraction : ∀ digits ∈ literal.fraction, Digits digits
  exponent : ∀ exponent ∈ literal.exponent, Digits exponent.2

def fractionText : Option (List UInt8) → List UInt8
  | none => []
  | some digits => 0x2e :: digits

def exponentText : Option (Bool × List UInt8) → List UInt8
  | none => []
  | some (down, digits) => 0x65 :: (if down then 0x2d else 0x2b) :: digits

def text (literal : Literal) : List UInt8 :=
  (if literal.negative then [0x2d] else []) ++ literal.whole ++ fractionText literal.fraction
    ++ exponentText literal.exponent

theorem run_digits {digits allowed rest : List UInt8} (spelled : Digits digits)
    (follows : Follows allowed rest) (stop : allowed.all (!isDigit ·) = true) :
    Reader.digits.run (digits ++ rest) = .ok (digits, rest) := by
  obtain ⟨nonempty, all⟩ := spelled
  obtain ⟨first, others, rfl⟩ := List.exists_cons_of_ne_nil nonempty
  have taken : rest.takeWhile isDigit = [] ∧ rest.dropWhile isDigit = rest := by
    cases rest with
    | nil => simp
    | cons byte rest =>
      have other : isDigit byte = false := by
        simpa using List.all_eq_true.1 stop byte (follows byte rfl)
      simp [other]
  have whole : (first :: others ++ rest).takeWhile isDigit = first :: others := by
    rw [List.takeWhile_append_of_pos all, taken.1, List.append_nil]
  have left : (first :: others ++ rest).dropWhile isDigit = rest := by
    rw [List.dropWhile_append_of_pos all, taken.2]
  simp only [Reader.digits, StateT.run_bind, StateT.run_get, pure_bind, whole, left]
  rfl

theorem run_optionally_cons {bytes rest : List UInt8} {byte : UInt8} (mem : byte ∈ bytes) :
    (Reader.optionally bytes).run (byte :: rest) = .ok (some byte, rest) := by
  simp [Reader.optionally, Reader.advance, mem]

theorem run_optionally {bytes allowed rest : List UInt8} (follows : Follows allowed rest)
    (other : allowed.all (!bytes.contains ·) = true) :
    (Reader.optionally bytes).run rest = .ok (none, rest) := by
  cases rest with
  | nil => simp [Reader.optionally]
  | cons byte rest =>
    have absent : byte ∉ bytes := by simpa using List.all_eq_true.1 other byte (follows byte rfl)
    simp [Reader.optionally, absent]

/-! Behind each part stands the next one, or a delimiter. -/

theorem follows_exponentText (exponent : Option (Bool × List UInt8)) {rest : List UInt8}
    (delimited : Delimited rest) :
    Follows (0x65 :: delimiters) (exponentText exponent ++ rest) := by
  cases exponent with
  | none => exact fun byte mem => List.mem_cons_of_mem _ (delimited byte mem)
  | some exponent => exact follows_cons List.mem_cons_self _

theorem follows_fractionText (fraction : Option (List UInt8))
    (exponent : Option (Bool × List UInt8)) {rest : List UInt8} (delimited : Delimited rest) :
    Follows (0x2e :: 0x65 :: delimiters)
      (fractionText fraction ++ (exponentText exponent ++ rest)) := by
  cases fraction with
  | none =>
    exact fun byte mem => List.mem_cons_of_mem _ (follows_exponentText exponent delimited byte mem)
  | some fraction => exact follows_cons List.mem_cons_self _

theorem run_exponent {exponent : Option (Bool × List UInt8)} {rest : List UInt8}
    (digits : ∀ e ∈ exponent, Digits e.2) (delimited : Delimited rest) :
    Reader.exponent.run (exponentText exponent ++ rest) = .ok (exponent, rest) := by
  cases exponent with
  | none =>
    have absent := @run_optionally [0x65, 0x45] _ _ delimited (by decide)
    simp [Reader.exponent, exponentText, absent]
  | some exponent =>
    obtain ⟨down, exponent⟩ := exponent
    have read : Reader.digits.run (exponent ++ rest) = .ok (exponent, rest) :=
      run_digits (digits _ rfl) delimited (by decide)
    cases down <;> simp [Reader.exponent, exponentText, run_optionally_cons, read]

theorem run_fraction {fraction : Option (List UInt8)} (exponent : Option (Bool × List UInt8))
    {rest : List UInt8} (digits : ∀ f ∈ fraction, Digits f) (delimited : Delimited rest) :
    Reader.fraction.run (fractionText fraction ++ (exponentText exponent ++ rest)) =
      .ok (fraction, exponentText exponent ++ rest) := by
  have follows := follows_exponentText exponent delimited
  cases fraction with
  | none =>
    have absent := @run_optionally [0x2e] _ _ follows (by decide)
    simp [Reader.fraction, fractionText, absent]
  | some fraction =>
    have read := run_digits (digits _ rfl) follows (by decide)
    simp [Reader.fraction, fractionText, run_optionally_cons, read]

theorem run_sign {negative : Bool} {whole rest : List UInt8} (digits : Digits whole) :
    (Reader.optionally [0x2d]).run ((if negative then [0x2d] else []) ++ (whole ++ rest)) =
      .ok (if negative then some 0x2d else none, whole ++ rest) := by
  obtain ⟨first, others, rfl⟩ := List.exists_cons_of_ne_nil digits.1
  have digit := digits.2 first List.mem_cons_self
  cases negative with
  | true => exact run_optionally_cons (by decide)
  | false =>
    have unsigned : first ≠ 0x2d := by
      rintro rfl
      exact absurd digit (by decide)
    exact run_optionally (follows_cons (List.mem_singleton.2 rfl) _) (by simpa using unsigned)

theorem run_blanks {negative : Bool} {whole rest : List UInt8} (digits : Digits whole) :
    Reader.blanks.run ((if negative then [0x2d] else []) ++ (whole ++ rest)) =
      .ok ((), (if negative then [0x2d] else []) ++ (whole ++ rest)) := by
  obtain ⟨first, others, rfl⟩ := List.exists_cons_of_ne_nil digits.1
  have visible : isBlank first = false := by
    have digit := digits.2 first List.mem_cons_self
    simp only [isDigit, isBlank, Bool.and_eq_true, decide_eq_true_eq,
      UInt8.le_iff_toNat_le] at digit ⊢
    simp [← UInt8.toNat_inj] at digit ⊢
    omega
  cases negative <;> simp [Reader.blanks, visible]
  rfl

theorem run_literal {literal : Literal} {rest : List UInt8} (spelled : literal.Spelled)
    (delimited : Delimited rest) :
    Reader.literal.run (literal.text ++ rest) = .ok (literal, rest) := by
  have single : ¬ (literal.whole.head? = some 0x30 ∧ literal.whole.length ≠ 1) :=
    fun h => h.2 (spelled.leading h.1)
  have integral := run_digits spelled.whole
    (follows_fractionText literal.fraction literal.exponent delimited) (by decide)
  simp only [Reader.literal, StateT.run_bind, text, List.append_assoc, run_blanks spelled.whole,
    ok_bind, run_sign spelled.whole, integral, if_neg single,
    run_fraction _ spelled.fraction delimited, run_exponent spelled.exponent delimited]
  obtain ⟨negative, whole, fraction, exponent⟩ := literal
  cases negative <;> rfl

end Literal

end Arbor.Json
