import Arbor.Proofs.Decimal.Reread
import Arbor.Proofs.Float32
import Arbor.Proofs.Json.Literal

/-!
# Reading numbers

A natural number is read back as itself if it is below the bound of the reader, and a finite float
as the same float, bit for bit: its shortest decimal is spelled in one of four ways, all of them
denote the decimal, and the decimal is rounded to the float.

## Main definitions

* `Parts`: a literal as it is written.
* `decimalParts`: the literal of a decimal.

## Main statements

* `decimalText_eq`: a decimal is written as its literal.
* `Reads.natural`, `Reads.float32`: numbers are read back.
-/

namespace Arbor.Json

open Build (bytesOf)

/-! ## Written literals -/

structure Parts where
  whole : List Char
  fraction : Option (List Char)
  exponent : Option (Bool × Nat)

def IsPart (cs : List Char) : Prop := cs ≠ [] ∧ ∀ c ∈ cs, c.isDigit = true

theorem IsPart.digits {cs : List Char} (part : IsPart cs) : Literal.Digits (digitBytes cs) :=
  ⟨by simpa [digitBytes] using part.1, fun _ => isDigit_of_mem_digitBytes part.2⟩

theorem isPart_toDigits (n : Nat) : IsPart (Nat.toDigits 10 n) :=
  ⟨Nat.toDigits_ne_nil, fun _ => Nat.isDigit_of_mem_toDigits (by decide) (by decide)⟩

theorem bytesOf_toString (n : Nat) : bytesOf (toString n) = digitBytes (Nat.toDigits 10 n) := by
  rw [Nat.toString_eq_ofList_toDigits]
  exact bytesOf_digits (isPart_toDigits n).2

theorem valueOf_toDigits (n : Nat) : Literal.valueOf (digitBytes (Nat.toDigits 10 n)) = n :=
  (Literal.valueFrom_digitBytes (isPart_toDigits n).2 0).trans Nat.ofDigitChars_ten_toDigits

namespace Parts

def literal (parts : Parts) (negative : Bool) : Literal :=
  ⟨negative, digitBytes parts.whole, parts.fraction.map digitBytes,
    parts.exponent.map fun (down, n) => (down, digitBytes (Nat.toDigits 10 n))⟩

def text (parts : Parts) : String :=
  String.ofList parts.whole
    ++ (match parts.fraction with
      | none => ""
      | some digits => "." ++ String.ofList digits)
    ++ match parts.exponent with
      | none => ""
      | some (down, n) => (if down then "e-" else "e+") ++ toString n

def digits (parts : Parts) : List Char := parts.whole ++ parts.fraction.getD []

/-- The power of ten that the last digit stands for. -/
def power (parts : Parts) : Int :=
  -((parts.fraction.getD []).length : Int) +
    match parts.exponent with
    | none => 0
    | some (down, n) => if down then -(n : Int) else n

structure Valid (parts : Parts) : Prop where
  whole : IsPart parts.whole
  leading : parts.whole.head? = some '0' → parts.whole.length = 1
  fraction : ∀ digits ∈ parts.fraction, IsPart digits

variable {parts : Parts}

theorem Valid.spelled (valid : parts.Valid) (negative : Bool) :
    (parts.literal negative).Spelled := by
  refine ⟨valid.whole.digits, fun zero => ?_, ?_, ?_⟩
  · obtain ⟨first, others, cons⟩ := List.exists_cons_of_ne_nil valid.whole.1
    have range := toNat_of_isDigit (valid.whole.2 first (cons ▸ List.mem_cons_self))
    have byte : UInt8.ofNat first.toNat = 0x30 := by
      simpa [literal, digitBytes, cons] using zero
    have digit : first.toNat = 0x30 := by
      have := congrArg UInt8.toNat byte
      rw [UInt8.toNat_ofNat'] at this
      change first.toNat % 256 = 48 at this
      omega
    have head : parts.whole.head? = some '0' := by
      rw [cons, List.head?_cons, Char.toNat_inj.1 (show first.toNat = '0'.toNat from digit)]
    simpa [literal, digitBytes] using valid.leading head
  · rintro _ mem
    obtain ⟨digits, present, rfl⟩ := Option.map_eq_some_iff.1 mem
    exact (valid.fraction digits present).digits
  · rintro _ mem
    obtain ⟨exponent, -, rfl⟩ := Option.map_eq_some_iff.1 mem
    exact (isPart_toDigits exponent.2).digits

theorem Valid.bytesOf_text (valid : parts.Valid) (negative : Bool) :
    bytesOf ((if negative then "-" else "") ++ parts.text) = (parts.literal negative).text := by
  have sign : bytesOf (if negative then "-" else "") = if negative then [0x2d] else [] := by
    cases negative <;> rw [bytesOf_eq] <;> rfl
  have fraction : bytesOf (match parts.fraction with
      | none => ""
      | some digits => "." ++ String.ofList digits) =
        Literal.fractionText (parts.literal negative).fraction := by
    cases found : parts.fraction with
    | none =>
      rw [bytesOf_eq, literal, found]
      rfl
    | some digits =>
      rw [bytesOf_append, bytesOf_digits (valid.fraction digits found).2, bytesOf_eq, literal,
        found]
      rfl
  have exponent : bytesOf (match parts.exponent with
      | none => ""
      | some (down, n) => (if down then "e-" else "e+") ++ toString n) =
        Literal.exponentText (parts.literal negative).exponent := by
    cases found : parts.exponent with
    | none =>
      rw [bytesOf_eq, literal, found]
      rfl
    | some exponent =>
      obtain ⟨down, n⟩ := exponent
      rw [bytesOf_append, bytesOf_toString, literal, found]
      cases down <;> rw [bytesOf_eq] <;> rfl
  rw [text, bytesOf_append, bytesOf_append, bytesOf_append, sign, fraction, exponent,
    bytesOf_digits valid.whole.2, Literal.text]
  simp only [List.append_assoc]
  rfl

theorem Valid.isDigit_of_mem_digits (valid : parts.Valid) :
    ∀ c ∈ parts.digits, c.isDigit = true := by
  intro c mem
  obtain whole | fraction := List.mem_append.1 mem
  · exact valid.whole.2 c whole
  · cases found : parts.fraction with
    | none => simp [found] at fraction
    | some digits => exact (valid.fraction digits found).2 c (by simpa [found] using fraction)

theorem Valid.value_eq (valid : parts.Valid) (negative : Bool)
    (real : parts.fraction.isSome = true ∨ parts.exponent.isSome = true)
    (small : Nat.ofDigitChars 10 parts.digits 0 < Word.limit) :
    (parts.literal negative).value =
      (Literal.scale (Nat.ofDigitChars 10 parts.digits 0) parts.power).map (.real negative) := by
  have significand : Literal.valueOf ((parts.literal negative).whole ++
      (parts.literal negative).fraction.getD []) = Nat.ofDigitChars 10 parts.digits 0 := by
    have bytes : (parts.literal negative).whole ++ (parts.literal negative).fraction.getD [] =
        digitBytes parts.digits := by
      cases found : parts.fraction <;> simp [literal, digits, digitBytes, found]
    rw [bytes]
    exact Literal.valueFrom_digitBytes valid.isDigit_of_mem_digits 0
  have power : -(((parts.literal negative).fraction.getD []).length : Int) +
      (parts.literal negative).shift = parts.power := by
    obtain ⟨whole, fraction, exponent⟩ := parts
    cases fraction <;> cases exponent <;>
      simp [literal, Literal.shift, Parts.power, valueOf_toDigits]
  rw [Literal.value_eq _ (by simpa [literal] using real) (significand ▸ small), significand, power]
  rfl

end Parts

/-! ## Natural numbers -/

theorem head_toDigits {n : Nat} (pos : 0 < n) : (Nat.toDigits 10 n).head? ≠ some '0' := by
  have digit : ∀ n < 10, 0 < n → n.digitChar ≠ '0' := by decide
  induction n using Nat.strong_induction_on with
  | _ n ih =>
    by_cases less : n < 10
    · rw [Nat.toDigits_of_lt_base less]
      simpa using digit n less pos
    · rw [Nat.toDigits_of_base_le (by decide) (Nat.le_of_not_lt less),
        List.head?_append_of_ne_nil _ Nat.toDigits_ne_nil]
      exact ih (n / 10) (by omega) (by omega)

theorem length_toDigits_of_head {n : Nat} (zero : (Nat.toDigits 10 n).head? = some '0') :
    (Nat.toDigits 10 n).length = 1 := by
  obtain rfl | pos := Nat.eq_zero_or_pos n
  · rfl
  · exact absurd zero (head_toDigits pos)

def naturalParts (n : Nat) : Parts := ⟨Nat.toDigits 10 n, none, none⟩

theorem naturalParts_valid (n : Nat) : (naturalParts n).Valid :=
  ⟨isPart_toDigits n, length_toDigits_of_head, by simp [naturalParts]⟩

theorem value_naturalParts {n : Nat} (small : n < Word.limit) :
    ((naturalParts n).literal false).value = some (.integer n) := by
  have all := Literal.absorb_eq 0 ((valueOf_toDigits n).symm ▸ small)
  have value : Literal.valueFrom 0 (digitBytes (Nat.toDigits 10 n)) = n := valueOf_toDigits n
  rw [value] at all
  simp [Literal.value, Parts.literal, naturalParts, all, Literal.integer]

/-- A natural number that is too large is never taken for a smaller one. -/
theorem toNat?_value_naturalParts {n bound : Nat} (large : ¬ n < bound) {number : Number}
    (h : ((naturalParts n).literal false).value = some number) : number.toNat? bound = none := by
  by_cases small : n < Word.limit
  · rw [value_naturalParts small] at h
    obtain rfl := Option.some.inj h
    exact if_neg large
  have dropped : (Literal.absorb (digitBytes (Nat.toDigits 10 n)) 0 0).2.2 ≠ [] := by
    intro all
    have less := Literal.absorb_dropped (by decide) all
    have value : Literal.valueFrom 0 (digitBytes (Nat.toDigits 10 n)) = n := valueOf_toDigits n
    omega
  simp only [Literal.value, Parts.literal, naturalParts] at h
  split at h
  · contradiction
  · obtain ⟨size, -, rfl⟩ := Option.map_eq_some_iff.1 h
    rfl

theorem run_number {parts : Parts} (valid : parts.Valid) (negative : Bool) {rest : List UInt8}
    (delimited : Delimited rest) :
    Reader.number.run (bytesOf ((if negative then "-" else "") ++ parts.text) ++ rest) =
      match (parts.literal negative).value with
      | none => .error .malformed
      | some number => .ok (number, rest) := by
  rw [valid.bytesOf_text, Reader.number, StateT.run_bind,
    Literal.run_literal (valid.spelled negative) delimited, ok_bind]
  cases (parts.literal negative).value <;> rfl

/-- A natural number is read back if it is below the bound of the reader. -/
theorem Reads.natural {sure : Prop} {n bound : Nat} (le : bound ≤ Word.limit)
    (small : sure → n < bound) : Reads sure (Reader.natural bound) (bytesOf (toString n)) n := by
  intro rest delimited
  have text : "" ++ (naturalParts n).text = toString n := by
    simp [naturalParts, Parts.text, Nat.repr_eq_ofList_toDigits]
  have number := run_number (naturalParts_valid n) false delimited
  simp only [Bool.false_eq_true, if_false, text] at number
  rw [Reader.natural, StateT.run_bind, number]
  by_cases less : n < bound
  · rw [value_naturalParts (less.trans_le le)]
    exact .of_eq (by simp [Number.toNat?, less])
  · have unsure : ¬ sure := fun h => less (small h)
    cases value : ((naturalParts n).literal false).value with
    | none => exact .of_error unsure rfl
    | some number =>
      simp only [ok_bind, toNat?_value_naturalParts less value]
      exact .of_error unsure rfl

/-! ## Decimals -/

def decimalParts (d : Decimal) : Parts :=
  let digits := Nat.toDigits 10 d.significand
  let exponent := d.exponent + digits.length - 1
  if positional exponent then
    if 0 ≤ d.exponent then ⟨digits ++ List.replicate d.exponent.toNat '0', some ['0'], none⟩
    else if exponent < 0 then
      ⟨['0'], some (List.replicate (-exponent - 1).toNat '0' ++ digits), none⟩
    else ⟨digits.take (exponent + 1).toNat, some (digits.drop (exponent + 1).toNat), none⟩
  else
    ⟨digits.take 1, if digits.length = 1 then none else some (digits.drop 1),
      some (decide (exponent < 0), exponent.natAbs)⟩

theorem decimalText_eq (d : Decimal) : decimalText d = (decimalParts d).text := by
  simp only [decimalText, decimalParts, Nat.toString_eq_ofList_toDigits, String.length_ofList,
    String.toList_ofList]
  generalize Nat.toDigits 10 d.significand = digits
  generalize d.exponent + digits.length - 1 = exponent
  split_ifs with positional integral small single negative negative <;>
    simp_all [Parts.text, String.append_assoc, Nat.repr_eq_ofList_toDigits]
  exact @String.append_assoc "0" "." _

theorem isPart_replicate_append {cs : List Char} (n : Nat) (part : IsPart cs) :
    IsPart (List.replicate n '0' ++ cs) := by
  refine ⟨by simp [part.1], fun c mem => ?_⟩
  obtain zeros | digits := List.mem_append.1 mem
  · rw [List.eq_of_mem_replicate zeros]
    rfl
  · exact part.2 c digits

theorem IsPart.take {cs : List Char} {n : Nat} (part : IsPart cs) (pos : 0 < n) :
    IsPart (cs.take n) :=
  ⟨by simpa [Nat.ne_of_gt pos] using part.1, fun c mem => part.2 c (List.mem_of_mem_take mem)⟩

theorem IsPart.drop {cs : List Char} {n : Nat} (part : IsPart cs) (less : n < cs.length) :
    IsPart (cs.drop n) :=
  ⟨by simpa using less, fun c mem => part.2 c (List.mem_of_mem_drop mem)⟩

theorem length_take_of_head {cs : List Char} {n : Nat} (pos : 0 < n)
    (leading : cs.head? = some '0' → cs.length = 1) (head : (cs.take n).head? = some '0') :
    (cs.take n).length = 1 := by
  rw [List.head?_take, if_neg (Nat.ne_of_gt pos)] at head
  rw [List.length_take, leading head]
  omega

/-- Zero is written with a zero exponent only. -/
theorem decimalParts_valid {d : Decimal} (zero : d.significand = 0 → d.exponent = 0) :
    (decimalParts d).Valid := by
  have part := isPart_toDigits d.significand
  have length : 0 < (Nat.toDigits 10 d.significand).length := Nat.length_toDigits_pos
  have leading : (Nat.toDigits 10 d.significand).head? = some '0' →
      (Nat.toDigits 10 d.significand).length = 1 := length_toDigits_of_head
  simp only [decimalParts]
  split_ifs with positional integral small single
  · refine ⟨⟨by simp [part.1], fun c mem => ?_⟩, fun head => ?_, by simp [IsPart]⟩
    · obtain digits | zeros := List.mem_append.1 mem
      · exact part.2 c digits
      · rw [List.eq_of_mem_replicate zeros]
        rfl
    · rw [List.head?_append_of_ne_nil _ part.1] at head
      have empty : d.significand = 0 := Nat.eq_zero_of_not_pos fun pos => head_toDigits pos head
      simp [zero empty, leading head]
  · exact ⟨⟨by simp, by simp⟩, fun _ => rfl, by simpa using isPart_replicate_append _ part⟩
  · refine ⟨part.take (by omega), length_take_of_head (by omega) leading, ?_⟩
    simpa using part.drop (by omega)
  · exact ⟨part.take Nat.one_pos, length_take_of_head Nat.one_pos leading, by simp⟩
  · refine ⟨part.take Nat.one_pos, length_take_of_head Nat.one_pos leading, ?_⟩
    simpa using part.drop (show 1 < _ by omega)

theorem signed_natAbs (n : Int) : (if decide (n < 0) then -(n.natAbs : Int) else n.natAbs) = n := by
  split_ifs with negative <;> simp only [decide_eq_true_eq] at negative <;> omega

theorem real_decimalParts (d : Decimal) :
    (decimalParts d).fraction.isSome = true ∨ (decimalParts d).exponent.isSome = true := by
  simp only [decimalParts]
  split_ifs <;> simp

/-- The digits of a decimal's literal are those of its significand, with a zero behind them if the
decimal is written as an integer. -/
theorem decimalParts_cases (d : Decimal) :
    0 ≤ d.exponent ∧ d.exponent + (Nat.toDigits 10 d.significand).length - 1 ≤ 12 ∧
        Nat.ofDigitChars 10 (decimalParts d).digits 0 =
          d.significand * 10 ^ (d.exponent.toNat + 1) ∧
        (decimalParts d).power = -1 ∨
      Nat.ofDigitChars 10 (decimalParts d).digits 0 = d.significand ∧
        (decimalParts d).power = d.exponent := by
  have length : 0 < (Nat.toDigits 10 d.significand).length := Nat.length_toDigits_pos
  have value : Nat.ofDigitChars 10 (Nat.toDigits 10 d.significand) 0 = d.significand :=
    Nat.ofDigitChars_ten_toDigits
  simp only [decimalParts]
  generalize Nat.toDigits 10 d.significand = digits at *
  generalize defined : d.exponent + digits.length - 1 = exponent
  split_ifs with positional integral small single
  · refine .inl ⟨integral, ?_, ?_, rfl⟩
    · simp only [Json.positional, Bool.and_eq_true, decide_eq_true_eq] at positional
      exact positional.2
    · change Nat.ofDigitChars 10 (digits ++ List.replicate d.exponent.toNat '0' ++ ['0']) 0 = _
      rw [Nat.ofDigitChars_append, Nat.ofDigitChars_append, value, Nat.ofDigitChars_replicate_zero]
      simp [Nat.ofDigitChars_cons]
      ring
  · refine .inr ⟨?_, ?_⟩
    · change Nat.ofDigitChars 10
        (['0'] ++ (List.replicate (-exponent - 1).toNat '0' ++ digits)) 0 = _
      rw [Nat.ofDigitChars_append, Nat.ofDigitChars_append, Nat.ofDigitChars_replicate_zero]
      simp [Nat.ofDigitChars_cons, value]
    · change -((List.replicate (-exponent - 1).toNat '0' ++ digits).length : Int) + 0 = _
      rw [List.length_append, List.length_replicate]
      omega
  · refine .inr ⟨?_, ?_⟩
    · change Nat.ofDigitChars 10 (digits.take _ ++ digits.drop _) 0 = _
      rw [List.take_append_drop, value]
    · change -((digits.drop (exponent + 1).toNat).length : Int) + 0 = _
      rw [List.length_drop]
      omega
  · refine .inr ⟨?_, ?_⟩
    · change Nat.ofDigitChars 10 (digits.take 1 ++ []) 0 = _
      rw [List.append_nil, List.take_of_length_le single.le, value]
    · change -((0 : Nat) : Int) + (if decide (exponent < 0) then _ else _) = _
      rw [signed_natAbs]
      omega
  · refine .inr ⟨?_, ?_⟩
    · change Nat.ofDigitChars 10 (digits.take 1 ++ digits.drop 1) 0 = _
      rw [List.take_append_drop, value]
    · change -((digits.drop 1).length : Int) + (if decide (exponent < 0) then _ else _) = _
      rw [signed_natAbs, List.length_drop]
      omega

/-! ## Floats -/

/-- The literal of a decimal denotes the number that the decimal represents. -/
theorem value_decimalParts {d : Decimal} {b : Binary} (canonical : Format.single.Canonical b)
    (pos : 0 < b.mantissa) (finite : b.exponent ≤ 104) (represents : d.Represents b)
    (negative : Bool) :
    ∃ size : Binary, ((decimalParts d).literal negative).value = some (.real negative size) ∧
      Format.single.bits (Format.single.round size.numerator size.denominator) =
        Format.single.bits b := by
  have positive : 0 < d.significand :=
    Nat.pos_of_ne_zero fun zero => represents.last (by rw [zero])
  have limit : 2 ^ 53 < Word.limit := by decide
  have value : ∀ {s : Nat} {k : Int}, Nat.ofDigitChars 10 (decimalParts d).digits 0 = s →
      (decimalParts d).power = k → 0 < s → s < 2 ^ 53 → -55 ≤ k → k ≤ 55 →
      ((decimalParts d).literal negative).value = some (.real negative (Literal.reading s k)) := by
    rintro s k rfl rfl pos short low high
    rw [(decimalParts_valid fun zero => absurd zero (Nat.ne_of_gt positive)).value_eq negative
      (real_decimalParts d) (short.trans limit), Literal.scale_eq pos short low high]
    rfl
  obtain ⟨integral, le, digits, power⟩ | ⟨digits, power⟩ := decimalParts_cases d
  · have short : d.significand * 10 ^ (d.exponent.toNat + 1) < 2 ^ 53 := by
      have length := (Nat.length_toDigits_le_iff (by decide) Nat.length_toDigits_pos).1
        (Nat.le_refl (Nat.toDigits 10 d.significand).length)
      have digits : (Nat.toDigits 10 d.significand).length + (d.exponent.toNat + 1) ≤ 14 := by omega
      calc d.significand * 10 ^ (d.exponent.toNat + 1)
          < 10 ^ (Nat.toDigits 10 d.significand).length * 10 ^ (d.exponent.toNat + 1) :=
            Nat.mul_lt_mul_of_pos_right length (by positivity)
        _ ≤ 10 ^ 14 := by
            rw [← Nat.pow_add]
            exact Nat.pow_le_pow_right (by decide) digits
        _ < 2 ^ 53 := by decide
    exact ⟨_, value digits power (Nat.mul_pos positive (by positivity)) short (by omega) (by omega),
      Decimal.bits_reading_integral canonical pos represents integral short⟩
  · have low := represents.le_exponent
    have high := represents.exponent_le
    exact ⟨_, value digits power positive (represents.significand_lt.trans (by decide)) (by omega)
      (by omega), Decimal.bits_reading canonical pos finite represents⟩

theorem value_zeroParts (negative : Bool) :
    ((decimalParts ⟨0, 0⟩).literal negative).value =
      some (.real negative (Literal.reading 0 (-1))) := by
  rw [(decimalParts_valid fun _ => rfl).value_eq negative (.inl rfl) (by decide),
    show Nat.ofDigitChars 10 (decimalParts ⟨0, 0⟩).digits 0 = 0 by decide,
    show (decimalParts ⟨0, 0⟩).power = -1 by decide,
    show Literal.scale 0 (-1) = some (Literal.reading 0 (-1)) by decide +kernel]
  rfl

/-- The literal of a finite float denotes a number that is rounded to the float. -/
theorem value_floatParts {x : Float32} {negative : Bool} {b : Binary}
    (float : Binary.ofFloat32? x = some (negative, b)) :
    (decimalParts (Decimal.shortest .single b)).Valid ∧
    ∃ size : Binary, ((decimalParts (Decimal.shortest .single b)).literal negative).value =
        some (.real negative size) ∧ size.toFloat32 negative = x := by
  have ⟨_, decoded, pair⟩ := Option.map_eq_some_iff.1 float
  rw [(Prod.mk.inj pair).2] at decoded
  obtain ⟨canonical, finite, -⟩ := Format.canonical_of_decode (by decide) decoded
  obtain zero | pos := Nat.eq_zero_or_pos b.mantissa
  · have least : b.exponent = -149 := by
      refine canonical.normal.resolve_right fun normal => ?_
      rw [zero] at normal
      exact absurd normal (by decide)
    rw [Decimal.shortest, if_pos zero]
    refine ⟨decimalParts_valid fun _ => rfl, _, value_zeroParts negative,
      Float32.toFloat32_of_bits float ?_⟩
    rw [Format.bits, Format.bits, zero, least]
    decide +kernel
  · have represents := Decimal.shortest_represents canonical pos finite
    obtain ⟨size, value, same⟩ := value_decimalParts canonical pos finite represents negative
    refine ⟨decimalParts_valid fun zero => ?_, size, value, Float32.toFloat32_of_bits float same⟩
    exact absurd (by rw [zero]) represents.last

/-- A finite float is read back bit for bit. -/
theorem Reads.float32 {sure : Prop} {x : Float32} (finite : sure → x.isFinite = true) :
    Reads sure Reader.float32 (bytesOf (floatText x)) x := by
  intro rest delimited
  cases float : Binary.ofFloat32? x with
  | none =>
    have unsure : ¬ sure := fun h => by simpa [float] using (Float32.isFinite_iff x).1 (finite h)
    have stop : Reader.float32.run (bytesOf "null" ++ rest) = .error .malformed := by
      rw [bytesOf_eq]
      rfl
    rw [floatText, float]
    exact .of_error unsure stop
  | some signed =>
    obtain ⟨negative, b⟩ := signed
    obtain ⟨valid, size, value, same⟩ := value_floatParts float
    have number := run_number valid negative delimited
    rw [value, ← decimalText_eq] at number
    refine .of_eq ?_
    rw [floatText, float, Reader.float32, StateT.run_bind, number]
    simp [Number.toFloat32, same]

end Arbor.Json
