import Calculator.Proofs.NearestNumber
import Calculator.Proofs.Scanning

/-!
# The values of numerals

A scanner keeps a whole number below 2⁶⁴ as it is and reads every other numeral as a decimal. Both
come to the number nearest to what the numeral denotes, so it does not matter how it is written, and
a numeral that denotes more does not stand for a lesser number.
-/

namespace Calculator

namespace Numeral

/-- The rational number that a numeral denotes: what the digits before the point are worth, and what
those behind it are worth in units of their last place. -/
def denoted (n : Numeral) : ℚ :=
  digitsValue n.whole + digitsValue (n.fraction.getD []) / 10 ^ n.places

/-- A numeral is read as a decimal of the size that it denotes. -/
theorem denoted_mul_unitsPerOne (n : Numeral) :
    n.denoted * unitsPerOne = Decimal.units ⟨digitsValue n.digits, -n.places⟩ := by
  have hpow : (10 : ℚ) ^ n.places ≠ 0 := pow_ne_zero _ (by norm_num)
  have hdigits : (digitsValue n.digits : ℚ) =
      10 ^ n.places * digitsValue n.whole + digitsValue (n.fraction.getD []) := by
    rw [digits, digitsValue_append, places]
    push_cast
    rfl
  rw [denoted, Decimal.units, hdigits, zpow_neg, zpow_natCast]
  generalize (unitsPerOne : ℚ) = one
  field_simp

/-- The value of a numeral is a quotient of units that denotes it, rounded once. -/
theorem exists_value_eq_round (n : Numeral) : ∃ num den : Nat, 0 < den ∧
    n.value = .round false num den ∧ (num : ℚ) / den = n.denoted * unitsPerOne := by
  obtain ⟨num, den, hden, hunits, hvalue⟩ :=
    Magnitude.exists_quotient_eq_units ⟨digitsValue n.digits, -n.places⟩
  exact ⟨num, den, hden, hvalue, hunits.trans n.denoted_mul_unitsPerOne.symm⟩

/-- The value of a numeral is what the number that it denotes is rounded to. -/
theorem isRounded_value (n : Numeral) : n.value.IsRounded n.denoted := by
  obtain ⟨num, den, hden, hvalue, hunits⟩ := n.exists_value_eq_round
  have hone : (unitsPerOne : ℚ) ≠ 0 := Nat.cast_ne_zero.mpr Binary64.unitsPerOne_pos.ne'
  have hround : (Binary64.round false num den).IsRounded (num / den / unitsPerOne) :=
    Binary64.isRounded_round hden
  rwa [← hvalue, hunits, mul_div_cancel_right₀ _ hone] at hround

/-- Numerals that denote the same number have the same value. -/
theorem value_eq_of_denoted_eq {n n' : Numeral} (h : n.denoted = n'.denoted) :
    n.value = n'.value := by
  obtain ⟨num, den, hden, hvalue, hunits⟩ := n.exists_value_eq_round
  obtain ⟨num', den', hden', hvalue', hunits'⟩ := n'.exists_value_eq_round
  rw [h, ← hunits'] at hunits
  rw [hvalue, hvalue', Binary64.round_eq_of_div_eq false hden hden' hunits]

/-- A numeral without digits behind a point denotes the whole number that its digits are worth. -/
theorem denoted_of_whole {n : Numeral} (h : n.fraction.getD [] = []) :
    n.denoted = digitsValue n.whole := by
  rw [denoted, h, show digitsValue [] = 0 from rfl, Nat.cast_zero, zero_div, add_zero]

/-- Wherever a numeral stands in front of a text that it does not go on with, a scanner takes all of
it and makes a number token with the given literal. -/
def Yields (n : Numeral) (literal : Literal) : Prop :=
  ∀ p rest, n.EndsBefore rest → Scanner.next ⟨p, n.chars ++ rest⟩ =
    (.ok ⟨.number, String.ofList n.chars, some literal, ⟨p, p + n.chars.length⟩⟩,
      ⟨p + n.chars.length, rest⟩)

/-- A numeral yields its literal and no other one. -/
theorem yields_iff {n : Numeral} (hn : n.Proper) {literal : Literal} :
    n.Yields literal ↔ literal = .ofNumeral n := by
  constructor
  · intro h
    have hnext := h 0 [] (endsNumeral_nil.endsBefore n)
    rw [Scanner.next_numeral hn (endsNumeral_nil.endsBefore n), Scanner.numeralToken] at hnext
    injection hnext with htoken
    injection htoken with htoken
    injection htoken with _ _ hvalue
    exact (Option.some.inj hvalue).symm
  · rintro rfl p rest hrest
    exact Scanner.next_numeral hn hrest p

end Numeral

/-- No number is less than itself. -/
theorem Binary64.lt_self (x : Binary64) : x.lt x = false := by
  cases x with
  | finite negative m => exact decide_eq_false (Int.lt_irrefl _)
  | infinite negative => exact Bool.and_not_self negative
  | nan => rfl

/-- A numeral is kept exactly if it has no point and denotes a number below 2⁶⁴. -/
theorem Literal.ofNumeral_eq_integer_iff (n : Numeral) (k : Nat) :
    Literal.ofNumeral n = .integer k ↔ n.fraction = none ∧ n.denoted = k ∧ k ≤ 2 ^ 64 - 1 := by
  obtain ⟨whole, fraction⟩ := n
  cases fraction with
  | some digits =>
    constructor
    · intro h
      cases h
    · rintro ⟨h, -⟩
      cases h
  | none =>
    rw [Numeral.denoted_of_whole rfl, Nat.cast_inj, ofNumeral]
    dsimp only
    split
    · next hlt =>
      rw [Literal.integer.injEq]
      constructor
      · rintro rfl
        exact ⟨rfl, rfl, by omega⟩
      · exact fun h => h.2.1
    · next hge =>
      constructor
      · intro h
        cases h
      · rintro ⟨-, rfl, hle⟩
        omega

/-- **Numerals are rounded correctly, whichever way they are read.** A scanner takes a numeral as
one token. The token keeps a whole number exactly if there is no point and the number is at most
2⁶⁴ - 1, and in every case it stands for what the denoted number is rounded to. So numerals that
denote the same number stand for the same one, and a numeral that denotes no less does not stand for
less. -/
theorem literal_exact {n : Numeral} (hn : n.Proper) : ∃ literal, n.Yields literal ∧
    (∀ k, literal = .integer k ↔ n.fraction = none ∧ n.denoted = k ∧ k ≤ 2 ^ 64 - 1) ∧
    literal.value.IsRounded n.denoted ∧
    ∀ (n' : Numeral) (literal' : Literal), n'.Proper → n'.Yields literal' →
      n.denoted ≤ n'.denoted → literal'.value.lt literal.value = false ∧
        (n.denoted = n'.denoted → literal'.value = literal.value) := by
  refine ⟨.ofNumeral n, (Numeral.yields_iff hn).mpr rfl, Literal.ofNumeral_eq_integer_iff n, ?_, ?_⟩
  · rw [Literal.value_ofNumeral]
    exact n.isRounded_value
  · intro n' literal' hn' hyields hle
    obtain rfl := (Numeral.yields_iff hn').mp hyields
    rw [Literal.value_ofNumeral, Literal.value_ofNumeral]
    refine ⟨?_, fun heq => Numeral.value_eq_of_denoted_eq heq.symm⟩
    rcases hle.eq_or_lt with heq | hlt
    · rw [Numeral.value_eq_of_denoted_eq heq, Binary64.lt_self]
    · exact n.isRounded_value.lt_eq_false n'.isRounded_value hlt

/-- The number 2⁵³ + 1 lies midway between two numbers. Written as a whole number it is kept, and
with a zero before it and a point behind it it is not, but both numerals stand for 2⁵³. -/
theorem literal_exact_midway :
    let n : Numeral := ⟨"9007199254740993".toList, none⟩
    let n' : Numeral := ⟨"09007199254740993".toList, some []⟩
    n.Proper ∧ n'.Proper ∧ n.denoted ≤ n'.denoted ∧ ∃ literal', n'.Yields literal' ∧
      n.Yields (.integer 9007199254740993) ∧ (∀ k, literal' ≠ .integer k) ∧
      literal'.value = .ofNat 9007199254740992 := by
  intro n n'
  have hn : n.Proper := ⟨by decide, List.all_eq_true.mp rfl⟩
  have hn' : n'.Proper := ⟨by decide, List.all_eq_true.mp rfl⟩
  have hdenoted : n.denoted = n'.denoted := by
    rw [Numeral.denoted_of_whole rfl, Numeral.denoted_of_whole rfl, Nat.cast_inj]
    decide +kernel
  obtain ⟨literal, hyields, hkept, -, hother⟩ := literal_exact hn
  obtain ⟨literal', hyields', hkept', -, -⟩ := literal_exact hn'
  have hinteger : literal = .integer 9007199254740993 := by
    refine (hkept _).mpr ⟨rfl, ?_, by decide⟩
    rw [Numeral.denoted_of_whole rfl, Nat.cast_inj]
    decide +kernel
  have hsame := (hother n' literal' hn' hyields' hdenoted.le).2 hdenoted
  rw [hinteger] at hyields hsame
  refine ⟨hn, hn', hdenoted.le, literal', hyields', hyields, fun k hk => ?_, ?_⟩
  · exact nomatch ((hkept' k).mp hk).1
  · rw [hsame]
    decide +kernel

end Calculator
