import Calculator.Decimal.Layout
import Calculator.Proofs.ExactRounding
import Calculator.Token.Basic

/-!
# Number texts are numerals

The text of a finite number without a sign is one numeral, and the literal of this numeral stands
for the same number. The digits of a text and their value are inverse to each other, and the digits
of a decimal may be set with a point among them, with zeros behind them or with zeros before them.
-/

namespace Calculator

/-! ## Digits and their value -/

/-- The value of digits behind other digits. -/
theorem digitsValue_append (front back : List Char) :
    digitsValue (front ++ back) = 10 ^ back.length * digitsValue front + digitsValue back := by
  rw [digitsValue, Nat.ofDigitChars_append, Nat.ofDigitChars_eq_ofDigitChars_zero]
  rfl

/-- Zeros have the value zero. -/
theorem digitsValue_replicate_zero (zeros : Nat) : digitsValue (List.replicate zeros '0') = 0 := by
  rw [digitsValue, Nat.ofDigitChars_replicate_zero, Nat.mul_zero]

/-- Zeros behind digits multiply their value by a power of ten. -/
theorem digitsValue_append_zeros (digits : List Char) (zeros : Nat) :
    digitsValue (digits ++ List.replicate zeros '0') = digitsValue digits * 10 ^ zeros := by
  rw [digitsValue_append, digitsValue_replicate_zero, List.length_replicate, Nat.add_zero,
    Nat.mul_comm]

/-- Zeros before digits do not change their value. -/
theorem digitsValue_zeros_append (zeros : Nat) (digits : List Char) :
    digitsValue (List.replicate zeros '0' ++ digits) = digitsValue digits := by
  rw [digitsValue_append, digitsValue_replicate_zero, Nat.mul_zero, Nat.zero_add]

/-- The digits of a number have it as their value. -/
theorem digitsValue_decimalDigits (n : Nat) : digitsValue (decimalDigits n) = n := by
  rw [digitsValue, decimalDigits, Nat.ofDigitChars_ten_toDigits]

/-- The digits of a number are digits. -/
theorem isDigit_of_mem_decimalDigits {n : Nat} {c : Char} (h : c ∈ decimalDigits n) :
    c.isDigit = true :=
  Nat.isDigit_of_mem_toDigits (by decide) (by decide) h

/-- Zeros are digits. -/
theorem isDigit_of_mem_zeros {zeros : Nat} {c : Char} (h : c ∈ List.replicate zeros '0') :
    c.isDigit = true := by
  rw [List.eq_of_mem_replicate h]
  rfl

/-! ## Numerals and what they denote -/

/-- A numeral as it is written: digits only, and at least one before the point. -/
structure Numeral.Proper (n : Numeral) : Prop where
  whole_ne_nil : n.whole ≠ []
  isDigit_of_mem : ∀ c ∈ n.digits, c.isDigit = true

/-- A numeral starts with a digit. -/
theorem Numeral.Proper.exists_cons {n : Numeral} (hn : n.Proper) :
    ∃ c cs, n.chars = c :: cs ∧ c.isDigit = true := by
  obtain ⟨whole, fraction⟩ := n
  cases whole with
  | nil => exact absurd rfl hn.whole_ne_nil
  | cons c whole =>
    have hdigit : c.isDigit = true := hn.isDigit_of_mem c List.mem_cons_self
    cases fraction with
    | none => exact ⟨c, whole, rfl, hdigit⟩
    | some digits => exact ⟨c, whole ++ '.' :: digits, rfl, hdigit⟩

/-- The characters of a numeral are digits, and at most one point among them. -/
theorem Numeral.Proper.isDigit_or_eq_point {n : Numeral} (hn : n.Proper) {c : Char}
    (hc : c ∈ n.chars) : c.isDigit = true ∨ c = '.' := by
  obtain ⟨whole, fraction⟩ := n
  have hdigit := hn.isDigit_of_mem
  cases fraction with
  | none => exact .inl (hdigit c (List.mem_append_left _ hc))
  | some digits =>
    rcases List.mem_append.mp hc with hc | hc
    · exact .inl (hdigit c (List.mem_append_left _ hc))
    · rcases List.mem_cons.mp hc with rfl | hc
      · exact .inr rfl
      · exact .inl (hdigit c (List.mem_append_right _ hc))

/-- A numeral ends in front of a character that is neither a digit nor a point, and at the end of a
text. -/
def EndsNumeral (rest : List Char) : Prop :=
  ∀ c ∈ rest.head?, c.isDigit = false ∧ c ≠ '.'

/-- A numeral ends in front of a character that is neither a digit nor a point. -/
theorem endsNumeral_cons {c : Char} (rest : List Char) (hdigit : c.isDigit = false)
    (hpoint : c ≠ '.') : EndsNumeral (c :: rest) := by
  intro d hd
  cases hd
  exact ⟨hdigit, hpoint⟩

/-- A numeral ends at the end of a text. -/
theorem endsNumeral_nil : EndsNumeral [] := nofun

/-- Digits are taken up to the first character that is none. -/
theorem span_digits {digits rest : List Char} (hdigits : ∀ c ∈ digits, c.isDigit = true)
    (hrest : ∀ c ∈ rest.head?, c.isDigit = false) :
    (digits ++ rest).takeWhile Char.isDigit = digits ∧
      (digits ++ rest).dropWhile Char.isDigit = rest := by
  rw [List.takeWhile_append_of_pos hdigits, List.dropWhile_append_of_pos hdigits]
  cases rest with
  | nil => exact ⟨List.append_nil digits, rfl⟩
  | cons c rest =>
    have hc : c.isDigit = false := hrest c rfl
    rw [List.takeWhile_cons_of_neg (by simp [hc]), List.dropWhile_cons_of_neg (by simp [hc]),
      List.append_nil]
    exact ⟨rfl, rfl⟩

/-- A numeral ends in front of a text that it does not go on with: the text starts with no digit,
and with a point only if the numeral has one already. -/
def Numeral.EndsBefore (n : Numeral) (rest : List Char) : Prop :=
  ∀ c ∈ rest.head?, c.isDigit = false ∧ (c = '.' → n.fraction.isSome = true)

/-- What ends every numeral ends each of them. -/
theorem EndsNumeral.endsBefore {rest : List Char} (h : EndsNumeral rest) (n : Numeral) :
    n.EndsBefore rest :=
  fun c hc => ⟨(h c hc).1, fun hpoint => absurd hpoint (h c hc).2⟩

/-- Behind the characters that are dropped a text starts with one that is not. -/
theorem eq_false_of_mem_head?_dropWhile {p : Char → Bool} {cs : List Char} {c : Char}
    (h : c ∈ (cs.dropWhile p).head?) : p c = false := by
  have hhead := List.head?_dropWhile_not p cs
  rw [Option.mem_def.mp h] at hhead
  exact hhead

/-- The longest numeral in front of a text is the one that was written there. -/
theorem Numeral.take_chars_append {n : Numeral} {rest : List Char} (hn : n.Proper)
    (hrest : n.EndsBefore rest) : Numeral.take (n.chars ++ rest) = (n, rest) := by
  obtain ⟨whole, fraction⟩ := n
  have hwhole : ∀ c ∈ whole, c.isDigit = true := fun c hc =>
    hn.isDigit_of_mem c (List.mem_append_left _ hc)
  cases fraction with
  | none =>
    -- a point behind the digits would be taken too, so none may follow
    obtain ⟨htake, hdrop⟩ := span_digits hwhole fun c hc => (hrest c hc).1
    simp only [chars, take, htake, hdrop]
    split
    · next rest => cases (hrest '.' rfl).2 rfl
    · rfl
  | some digits =>
    have hdigits : ∀ c ∈ digits, c.isDigit = true := fun c hc =>
      hn.isDigit_of_mem c (List.mem_append_right _ hc)
    have hpoint : ∀ c ∈ ('.' :: (digits ++ rest)).head?, c.isDigit = false := by
      intro c hc
      cases hc
      rfl
    obtain ⟨htake, hdrop⟩ := span_digits hwhole hpoint
    obtain ⟨htake', hdrop'⟩ := span_digits hdigits fun c hc => (hrest c hc).1
    simp only [chars, take, List.append_assoc, List.cons_append, htake, hdrop, htake', hdrop']

/-- A text that starts with a digit is the longest numeral there and what follows it. -/
theorem Numeral.exists_take_eq {c : Char} (hc : c.isDigit = true) (cs : List Char) :
    ∃ n rest, Numeral.take (c :: cs) = (n, rest) ∧ n.Proper ∧ c :: cs = n.chars ++ rest ∧
      n.EndsBefore rest := by
  have hwhole : (c :: cs).takeWhile Char.isDigit ≠ [] := by
    rw [List.takeWhile_cons_of_pos hc]
    exact List.cons_ne_nil _ _
  have hdigits : ∀ l : List Char, ∀ d ∈ l.takeWhile Char.isDigit, d.isDigit = true := fun l d hd =>
    List.all_eq_true.mp List.all_takeWhile d hd
  have hend : ∀ l : List Char, ∀ d ∈ (l.dropWhile Char.isDigit).head?, d.isDigit = false :=
    fun _ _ => eq_false_of_mem_head?_dropWhile
  have hsplit := (List.takeWhile_append_dropWhile (p := Char.isDigit) (l := c :: cs)).symm
  rw [take]
  split
  · next rest hrest =>
    refine ⟨_, _, rfl, ⟨hwhole, fun d hd => ?_⟩, ?_, fun d hd => ⟨hend rest d hd, fun _ => rfl⟩⟩
    · exact (List.mem_append.mp hd).elim (hdigits _ d) (hdigits _ d)
    · rw [chars, List.append_assoc, List.cons_append, List.takeWhile_append_dropWhile, ← hrest]
      exact hsplit
  · next hrest =>
    refine ⟨_, _, rfl, ⟨hwhole, fun d hd => ?_⟩, hsplit, fun d hd => ⟨hend _ d hd, ?_⟩⟩
    · rw [digits, Option.getD_none, List.append_nil] at hd
      exact hdigits _ d hd
    · -- a point behind the digits would be taken too
      rintro rfl
      obtain ⟨rest, hpoint⟩ := List.head?_eq_some_iff.mp hd
      exact absurd hpoint (hrest rest)

/-- The literal of a numeral stands for the number nearest to it, also where the numeral is whole
and kept exactly. -/
theorem Literal.value_ofNumeral (n : Numeral) : (Literal.ofNumeral n).value = n.value := by
  obtain ⟨whole, fraction⟩ := n
  cases fraction with
  | some digits => rfl
  | none =>
    have hvalue : Numeral.value ⟨whole, none⟩ = Binary64.ofNat (digitsValue whole) := by
      rw [← Binary64.ofDecimal_zero_exponent, Numeral.value, Numeral.digits, Option.getD_none,
        List.append_nil]
      rfl
    rw [hvalue, ofNumeral]
    simp only
    split
    · rfl
    · exact hvalue

/-! ## The text of a number -/

/-- Digits set without an exponent are a numeral, which denotes them with their last digit at its
place. -/
theorem exists_numeral_of_digits {digits : List Char} (hne : digits ≠ [])
    (hdigits : ∀ c ∈ digits, c.isDigit = true) (place : Int) :
    ∃ n : Numeral, n.Proper ∧ positionalText false digits place = n.chars ∧
      n.value = .ofDecimal false (digitsValue digits) place := by
  cases place with
  | ofNat zeros =>
    -- no place behind the point: zeros fill the places up to the ones
    refine ⟨⟨digits ++ List.replicate zeros '0', none⟩, ⟨by simp [hne], ?_⟩, ?_, ?_⟩
    · intro c hc
      simp only [Numeral.digits, Option.getD_none, List.append_nil, List.mem_append] at hc
      exact hc.elim (hdigits c) isDigit_of_mem_zeros
    · simp [positionalText, Numeral.chars]
    · have hvalue := Binary64.ofDecimal_mul_pow false (digitsValue digits) zeros 0
      rw [← digitsValue_append_zeros, Int.zero_add] at hvalue
      simpa [Numeral.value, Numeral.digits, Numeral.places] using hvalue
  | negSucc k =>
    by_cases hlt : k + 1 < digits.length
    · -- the point stands among the digits
      have hplaces : (digits.drop (digits.length - (k + 1))).length = k + 1 := by
        rw [List.length_drop]
        omega
      refine ⟨⟨digits.take (digits.length - (k + 1)), some (digits.drop (digits.length - (k + 1)))⟩,
        ⟨?_, ?_⟩, ?_, ?_⟩
      · apply List.ne_nil_of_length_pos
        rw [List.length_take]
        omega
      · rw [Numeral.digits, Option.getD_some, List.take_append_drop]
        exact hdigits
      · rw [positionalText, if_pos hlt]
        rfl
      · rw [Numeral.value, Numeral.digits, Numeral.places, Option.getD_some, hplaces,
          List.take_append_drop]
        rfl
    · -- all digits stand behind the point, perhaps with zeros before them
      have hall : ['0'] ++ (List.replicate (k + 1 - digits.length) '0' ++ digits) =
          List.replicate (k + 1 - digits.length + 1) '0' ++ digits := by
        rw [List.replicate_succ]
        rfl
      have hplaces : (List.replicate (k + 1 - digits.length) '0' ++ digits).length = k + 1 := by
        rw [List.length_append, List.length_replicate]
        omega
      refine ⟨⟨['0'], some (List.replicate (k + 1 - digits.length) '0' ++ digits)⟩,
        ⟨List.cons_ne_nil _ _, ?_⟩, ?_, ?_⟩
      · intro c hc
        rw [Numeral.digits, Option.getD_some, hall, List.mem_append] at hc
        exact hc.elim isDigit_of_mem_zeros (hdigits c)
      · rw [positionalText, if_neg hlt]
        rfl
      · rw [Numeral.value, Numeral.digits, Numeral.places, Option.getD_some, hplaces, hall,
          digitsValue_zeros_append]
        rfl

/-- The digits of a decimal are the ones it is trimmed to and zeros, which go into the place. -/
theorem Decimal.trimmed_append_zeros (d : Decimal) :
    ∃ zeros : Nat, d.trimmed.1 ++ List.replicate zeros '0' = decimalDigits d.significand ∧
      d.trimmed.2 = d.exponent + zeros := by
  have hzeros : ∀ c ∈ (decimalDigits d.significand).reverse.takeWhile (· == '0'), c = '0' := by
    intro c hc
    simpa using List.all_eq_true.mp List.all_takeWhile c hc
  refine ⟨((decimalDigits d.significand).reverse.takeWhile (· == '0')).length, ?_, rfl⟩
  have hreplicate := List.eq_replicate_of_mem hzeros
  apply List.reverse_inj.mp
  rw [List.reverse_append, List.reverse_replicate, ← hreplicate, Decimal.trimmed]
  simp only [List.reverse_reverse, List.takeWhile_append_dropWhile]

/-- A decimal that is not zero is trimmed to digits that denote it at their place. -/
theorem Decimal.trimmed_spec {d : Decimal} (hd : d.significand ≠ 0) :
    d.trimmed.1 ≠ [] ∧ (∀ c ∈ d.trimmed.1, c.isDigit = true) ∧
      Binary64.ofDecimal false (digitsValue d.trimmed.1) d.trimmed.2 =
        .ofDecimal false d.significand d.exponent := by
  obtain ⟨zeros, hdigits, hplace⟩ := d.trimmed_append_zeros
  have hvalue : digitsValue d.trimmed.1 * 10 ^ zeros = d.significand := by
    rw [← digitsValue_append_zeros, hdigits, digitsValue_decimalDigits]
  refine ⟨fun hnil => hd ?_, fun c hc => ?_, ?_⟩
  · rw [← hvalue, hnil]
    exact Nat.zero_mul _
  · apply isDigit_of_mem_decimalDigits (n := d.significand)
    rw [← hdigits]
    exact List.mem_append_left _ hc
  · rw [hplace, ← Binary64.ofDecimal_mul_pow, hvalue]

/-- A decimal that is read as a number other than zero is not zero. -/
theorem significand_ne_zero_of_ofDecimal {significand : Nat} {exponent : Int} {m : Magnitude}
    (hm : m.significand ≠ 0)
    (h : Binary64.ofDecimal false significand exponent = .finite false m) : significand ≠ 0 := by
  rintro rfl
  rw [Magnitude.ofDecimal_zero] at h
  injection h with _ h
  exact hm (h ▸ rfl)

/-- The text of a magnitude is a numeral that denotes it. -/
theorem exists_numeral_of_magnitude (m : Magnitude) :
    ∃ n : Numeral, n.Proper ∧ NumberFormat.plain.magnitudeText m = n.chars ∧
      n.value = .finite false m := by
  by_cases hzero : m.significand = 0
  · refine ⟨⟨['0'], none⟩, ⟨List.cons_ne_nil _ _, fun c hc => ?_⟩, ?_, ?_⟩
    · rw [List.mem_singleton.mp hc]
      rfl
    · rw [NumberFormat.magnitudeText, if_pos hzero]
      rfl
    · rw [Magnitude.eq_zero hzero]
      exact Magnitude.ofDecimal_zero false 0
  · obtain ⟨hdigits, hdigit, hvalue⟩ :=
      Decimal.trimmed_spec (significand_ne_zero_of_ofDecimal hzero (m.ofDecimal_shortest .away))
    obtain ⟨n, hn, htext, hnumeral⟩ := exists_numeral_of_digits hdigits hdigit
      (m.shortest .away).trimmed.2
    refine ⟨n, hn, ?_, ?_⟩
    · rw [← htext, NumberFormat.magnitudeText, if_neg hzero]
      rfl
    · rw [hnumeral, hvalue, Magnitude.ofDecimal_shortest]

end Calculator
