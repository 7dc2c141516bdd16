import Calculator.Answer
import Calculator.Proofs.EvaluationLimit
import Calculator.Proofs.ParseExact
import Calculator.Proofs.Scanning

/-!
# The text of a result is answered with the result

The text of a finite result is a numeral, with a minus before it where the result is negative. A
whole number below 10¹⁶ has a zero behind its point, any other number has its shortest digits, and
either numeral is rounded to the number that it was written for. Typed in, the numeral is one token,
and the minus is the sign of an expression, which turns zero into negative zero.
-/

namespace Calculator

/-! ## The numeral of a result -/

/-- The digits of a whole number with a point and a zero behind them denote it. -/
theorem exists_numeral_of_whole (k : Nat) :
    ∃ n : Numeral, n.Proper ∧ decimalDigits k ++ ['.', '0'] = n.chars ∧ n.value = .ofNat k := by
  refine ⟨⟨decimalDigits k, some ['0']⟩, ⟨Nat.toDigits_ne_nil, fun c hc => ?_⟩, rfl, ?_⟩
  · rcases List.mem_append.mp hc with hc | hc
    · exact isDigit_of_mem_decimalDigits hc
    · rw [List.mem_singleton.mp hc]
      rfl
  · have hdigits : digitsValue (decimalDigits k ++ ['0']) = k * 10 ^ 1 := by
      have hzeros := digitsValue_append_zeros (decimalDigits k) 1
      rwa [digitsValue_decimalDigits] at hzeros
    have hplace : Binary64.ofDecimal false (k * 10 ^ 1) (-1) = .ofDecimal false k 0 :=
      Binary64.ofDecimal_mul_pow false k 1 (-1)
    rw [← Binary64.ofDecimal_zero_exponent, ← hplace, ← hdigits]
    rfl

/-- A whole number of ones is rounded to the magnitude that it is the size of. -/
theorem Magnitude.ofNat_units_div {m : Magnitude} (h : m.units % unitsPerOne = 0) :
    Binary64.ofNat (m.units / unitsPerOne) = .finite false m := by
  rw [Binary64.ofNat, Nat.div_mul_cancel (Nat.dvd_of_mod_eq_zero h), round_units]

/-- A result is written as its sign and a numeral that denotes the result without it. -/
theorem exists_numeral_of_result (negative : Bool) (m : Magnitude) :
    ∃ n : Numeral, n.Proper ∧ resultChars (.finite negative m) = signText negative ++ n.chars ∧
      n.value = .finite false m := by
  by_cases hshort : isShortWhole (.finite negative m) = true
  · obtain ⟨n, hn, hchars, hvalue⟩ := exists_numeral_of_whole (m.units / unitsPerOne)
    have hwhole : m.units % unitsPerOne = 0 := by
      rw [isShortWhole, Bool.and_eq_true, beq_iff_eq] at hshort
      exact hshort.1
    refine ⟨n, hn, ?_, ?_⟩
    · rw [resultChars, if_pos hshort, List.append_assoc, hchars]
    · rw [hvalue, Magnitude.ofNat_units_div hwhole]
  · obtain ⟨n, hn, hchars, hvalue⟩ := exists_numeral_of_magnitude m
    refine ⟨n, hn, ?_, hvalue⟩
    rw [resultChars, if_neg hshort, plainChars, hchars]

/-! ## The answer to a signed numeral -/

/-- A text is answered with the value of the expression that its tokens make, if the limits leave
room for the levels and the height of it. -/
theorem answer_of_derives {limits : Limits} {cs : List Char} {ts : List Token} {p n : Nat}
    {e : Expr} {x : Binary64} (hreads : Scanner.Reads (.start cs) ts ⟨p, []⟩)
    (hderives : Derives .sum ts e n) (hn : n + 1 ≤ limits.nesting)
    (hheight : e.height ≤ limits.evaluation) (hvalue : e.value = .ok x) :
    answer limits (String.ofList cs) = .ok x := by
  have hbefore : beforeEnd (ts ++ [.endOfInput p]) = ts :=
    (beforeEnd_append rfl hderives.kind_ne_endOfInput).1
  have hparse : parse limits.nesting (ts ++ [.endOfInput p]) = .ok e :=
    parse_eq_ok_iff.mpr ⟨n, hn, by rwa [hbefore]⟩
  have hevaluate : evaluate limits.evaluation e = .ok x := by
    rw [evaluate_eq, Expr.valueWithin_eq_value hheight, hvalue]
  rw [answer_eq, String.toList_ofList, hreads.tokenize_eq]
  simp only [hparse, hevaluate]

/-- A numeral makes one token, which is a number of the value that the numeral has. -/
theorem derives_numeralToken {n : Numeral} {x : Binary64} (hvalue : n.value = x) (p : Nat) :
    Derives .primary [Scanner.numeralToken n p] (.number x ⟨p, p + n.chars.length⟩) 0 := by
  have hnumber : Derives .primary [Scanner.numeralToken n p]
      (.number (Literal.ofNumeral n).value ⟨p, p + n.chars.length⟩) 0 := .number rfl rfl
  rwa [Literal.value_ofNumeral, hvalue] at hnumber

/-- A numeral with a sign before it is answered with the number it denotes and this sign, if the
limits leave room for a sign. -/
theorem answer_signed_numeral {limits : Limits} (hnesting : 2 ≤ limits.nesting)
    (hevaluation : 2 ≤ limits.evaluation) (negative : Bool) {n : Numeral} (hn : n.Proper)
    {m : Magnitude} (hvalue : n.value = .finite false m) :
    answer limits (String.ofList (signText negative ++ n.chars)) = .ok (.finite negative m) := by
  have hnumeral (p : Nat) : Scanner.Reads ⟨p, n.chars⟩ [Scanner.numeralToken n p]
      ⟨p + n.chars.length, []⟩ := by
    have hreads := Scanner.Reads.numeral (p := p) hn endsNumeral_nil (.nil _)
    rwa [List.append_nil] at hreads
  cases negative with
  | false =>
    exact answer_of_derives (hnumeral 0) (derives_numeralToken hvalue 0).sum_of_primary
      (Nat.le_of_succ_le hnesting) (Nat.le_of_succ_le hevaluation) rfl
  | true =>
    have hreads := Scanner.Reads.symbol (c := '-') (k := .minus) rfl (hnumeral 1)
    have hsign : Sign.ofKind? (Scanner.symbolToken .minus '-' 0).kind = some .minus := rfl
    have hsigned := Derives.signing hsign (.operandOfPrimary (derives_numeralToken hvalue 1))
    exact answer_of_derives hreads hsigned.sum_of_operand hnesting hevaluation rfl

/-! ## Results that are typed back -/

/-- A finite number that is shown as a result is answered with the same number and the same sign. -/
theorem answer_eq_of_isFinite {limits : Limits} (hnesting : 2 ≤ limits.nesting)
    (hevaluation : 2 ≤ limits.evaluation) {x : Binary64} (hx : x.isFinite = true) :
    answer limits (resultText x) = .ok x := by
  cases x with
  | finite negative m =>
    obtain ⟨n, hn, hchars, hvalue⟩ := exists_numeral_of_result negative m
    rw [resultText, hchars]
    exact answer_signed_numeral hnesting hevaluation negative hn hvalue
  | infinite negative => cases hx
  | nan => cases hx

/-- **The text of a result is answered with the result.** Every finite number, shown as a result and
typed back, is answered with the same number and the same sign, also of zero; so no two finite
numbers have the same text. -/
theorem answer_resultText (x : Binary64) (hx : x.isFinite = true) :
    answer .standard (resultText x) = .ok x ∧
      ∀ y : Binary64, y.isFinite = true → resultText x = resultText y → x = y := by
  have hanswer {z : Binary64} (hz : z.isFinite = true) : answer .standard (resultText z) = .ok z :=
    answer_eq_of_isFinite (by decide) (by decide) hz
  refine ⟨hanswer hx, fun y hy htext => ?_⟩
  have hsame : (.ok x : Except Error Binary64) = .ok y := calc
    .ok x = answer .standard (resultText x) := (hanswer hx).symm
    _ = answer .standard (resultText y) := congrArg _ htext
    _ = .ok y := hanswer hy
  exact Except.ok.inj hsame

/-- The negative of 2⁶⁴ is shown with zeros in place of its last digits. They denote another whole
number, too large to be kept exactly, but the one nearest to that is 2⁶⁴ again. -/
theorem answer_resultText_large :
    let x : Binary64 := .finite true ⟨2 ^ 52, 1086, by decide⟩
    x.isFinite = true ∧ resultText x = "-18446744073709552000" ∧
      answer .standard (resultText x) = .ok x ∧
      ∀ y : Binary64, y.isFinite = true → resultText x = resultText y → x = y := by
  intro x
  have htext : resultText x = "-18446744073709552000" := by decide +kernel
  exact ⟨rfl, htext, answer_resultText x rfl⟩

end Calculator
