import Calculator.Proofs.JsonText
import Calculator.Proofs.ShortestDigits

/-!
# Numbers as data

The text of a number as data is a number of JSON. Read with all its digits, it is a significand
below 2⁶⁴ and a power of ten that are rounded to the number again, so a reader that keeps 64 bits of
a significand loses nothing before it starts to calculate.
-/

namespace Calculator

/-! ## The parts of a written number -/

/-- The value of digits behind a first one. -/
theorem digitsValue_cons (c : Char) (cs : List Char) :
    digitsValue (c :: cs) = digitValue c * 10 ^ cs.length + digitsValue cs := by
  have hone : digitsValue [c] = digitValue c := by
    rw [digitsValue, Nat.ofDigitChars_cons, Nat.ofDigitChars_nil, Nat.mul_zero, Nat.zero_add,
      digitValue]
  rw [← List.singleton_append, digitsValue_append, hone, Nat.mul_comm]

/-- The value of digits is less than the power of ten of their number. -/
theorem digitsValue_lt {digits : List Char} (hdigits : ∀ c ∈ digits, c.isDigit = true) :
    digitsValue digits < 10 ^ digits.length := by
  induction digits with
  | nil => decide
  | cons c cs ih =>
    rw [List.forall_mem_cons] at hdigits
    have hrest := ih hdigits.2
    have hdigit : digitValue c ≤ 9 := by
      obtain ⟨-, hle⟩ := Char.isDigit_iff_toNat.mp hdigits.1
      have hzero : '0'.toNat = 48 := rfl
      have hnine : '9'.toNat = 57 := rfl
      rw [digitValue]
      omega
    rw [digitsValue_cons, List.length_cons, Nat.pow_succ]
    nlinarith

/-- Digits are appended to a significand as long as there is room for all of them. -/
theorem appendDigits_eq {significand : Nat} {digits : List Char}
    (h : significand * 10 ^ digits.length + digitsValue digits < 2 ^ 64) :
    appendDigits significand digits =
      (significand * 10 ^ digits.length + digitsValue digits, 0) := by
  induction digits generalizing significand with
  | nil => simp [appendDigits, digitsValue]
  | cons c cs ih =>
    have htotal : significand * 10 ^ (c :: cs).length + digitsValue (c :: cs) =
        (10 * significand + digitValue c) * 10 ^ cs.length + digitsValue cs := by
      rw [digitsValue_cons, List.length_cons, Nat.pow_succ]
      ring
    rw [htotal] at h ⊢
    have hpos : 1 ≤ 10 ^ cs.length := Nat.one_le_pow _ _ (by decide)
    have hnext : 10 * significand + digitValue c < 2 ^ 64 := by nlinarith
    rw [appendDigits, if_pos hnext, ih h]

namespace JsonNumber

/-- The text of a number has the digits of a significand in it, and the place of the last one is an
exponent of ten. -/
structure Denotes (n : JsonNumber) (text : List Char) (significand : Nat) (exponent : Int) :
    Prop where
  proper : n.Proper
  chars_eq : n.chars = text
  digits_eq : digitsValue (n.whole ++ n.fraction.getD []) = significand
  places_eq : n.exponent.getD 0 - (n.fraction.getD []).length = exponent

/-- A number is read with the significand and the exponent that it has, if there is room for
them. -/
theorem Denotes.parts_eq {n : JsonNumber} {text : List Char} {significand : Nat} {exponent : Int}
    (h : n.Denotes text significand exponent) (hroom : significand < 2 ^ 64) :
    n.parts = (significand, exponent) := by
  obtain ⟨-, -, hdigits, hplaces⟩ := h
  rw [digitsValue_append] at hdigits
  have hwhole : 0 * 10 ^ n.whole.length + digitsValue n.whole < 2 ^ 64 := by
    have hpos : 1 ≤ 10 ^ (n.fraction.getD []).length := Nat.one_le_pow _ _ (by decide)
    nlinarith
  have hfraction : digitsValue n.whole * 10 ^ (n.fraction.getD []).length +
      digitsValue (n.fraction.getD []) < 2 ^ 64 := by linarith
  rw [parts, appendDigits_eq hwhole, Nat.zero_mul, Nat.zero_add]
  simp only [appendDigits_eq hfraction, Prod.mk.injEq]
  constructor
  · linarith
  · omega

end JsonNumber

/-- Zero with a point is a number as it may be written. -/
theorem JsonNumber.proper_zero : Proper ⟨false, ['0'], some ['0'], none⟩ := by
  have hzero : ∀ c ∈ ['0'], c.isDigit = true := fun c hc => List.mem_singleton.mp hc ▸ rfl
  exact ⟨by decide, hzero, .inl rfl, by decide, fun digits h => Option.some.inj h ▸ hzero⟩

/-! ## Layouts -/

/-- Digits with a point among them. -/
theorem denotes_point_among {digits : List Char} (hdigits : ∀ c ∈ digits, c.isDigit = true)
    (hhead : digits.head? ≠ some '0') {k : Nat} (hlt : k + 1 < digits.length) : JsonNumber.Denotes
    ⟨false, digits.take (digits.length - (k + 1)),
      some (digits.drop (digits.length - (k + 1))), none⟩
    (positionalText true digits (.negSucc k)) (digitsValue digits) (.negSucc k) := by
  have hplaces : (digits.drop (digits.length - (k + 1))).length = k + 1 := by
    rw [List.length_drop]
    omega
  have hfront : (digits.take (digits.length - (k + 1))).head? ≠ some '0' := by
    rwa [List.head?_take, if_neg (by omega)]
  refine ⟨⟨?_, fun c hc => ?_, .inr hfront, ?_, fun l hl c hc => ?_⟩, ?_, ?_, ?_⟩
  · apply List.ne_nil_of_length_pos
    rw [List.length_take]
    omega
  · exact hdigits c (List.mem_of_mem_take hc)
  · intro hnil
    rw [Option.some.inj hnil] at hplaces
    cases hplaces
  · obtain rfl := Option.some.inj hl
    exact hdigits c (List.mem_of_mem_drop hc)
  · simp [positionalText, if_pos hlt, JsonNumber.chars, Json.fractionChars, Json.exponentChars,
      signText]
  · rw [Option.getD_some, List.take_append_drop]
  · simp only [Option.getD_none, Option.getD_some, hplaces, Int.negSucc_eq]
    omega

/-- Digits behind a point, perhaps with zeros before them. -/
theorem denotes_point_before {digits : List Char} (hne : digits ≠ [])
    (hdigits : ∀ c ∈ digits, c.isDigit = true) {k : Nat} (hge : ¬ k + 1 < digits.length) :
    JsonNumber.Denotes
    ⟨false, ['0'], some (List.replicate (k + 1 - digits.length) '0' ++ digits), none⟩
    (positionalText true digits (.negSucc k)) (digitsValue digits) (.negSucc k) := by
  have hplaces : (List.replicate (k + 1 - digits.length) '0' ++ digits).length = k + 1 := by
    rw [List.length_append, List.length_replicate]
    omega
  refine ⟨⟨by simp, fun c hc => ?_, .inl rfl, by simp [hne], fun l hl c hc => ?_⟩, ?_, ?_, ?_⟩
  · rw [List.mem_singleton.mp hc]
    rfl
  · obtain rfl := Option.some.inj hl
    exact (List.mem_append.mp hc).elim isDigit_of_mem_zeros (hdigits c)
  · simp [positionalText, if_neg hge, JsonNumber.chars, Json.fractionChars, Json.exponentChars,
      signText]
  · have hall : ['0'] ++ (List.replicate (k + 1 - digits.length) '0' ++ digits) =
        List.replicate (k + 1 - digits.length + 1) '0' ++ digits := by
      rw [List.replicate_succ]
      rfl
    rw [Option.getD_some, hall, digitsValue_zeros_append]
  · simp only [Option.getD_none, Option.getD_some, hplaces, Int.negSucc_eq]
    omega

section Layout

variable {digits : List Char} (hne : digits ≠ []) (hdigits : ∀ c ∈ digits, c.isDigit = true)
  (hhead : digits.head? ≠ some '0')

include hne hdigits hhead

/-- Digits set with an exponent denote what they denote with their last digit at its place. -/
theorem exists_denotes_exponentText (place : Int) : ∃ n : JsonNumber,
    n.negative = false ∧ n.Denotes (exponentText digits (place + (digits.length : Int) - 1))
      (digitsValue digits) place := by
  cases digits with
  | nil => exact absurd rfl hne
  | cons c cs =>
    have hwhole : ∀ d ∈ [c], d.isDigit = true := fun d hd =>
      hdigits d (List.mem_singleton.mp hd ▸ List.mem_cons_self)
    cases cs with
    | nil =>
      refine ⟨⟨false, [c], none, some place⟩, rfl,
        ⟨by simp, hwhole, .inr hhead, by simp, by simp⟩, ?_, rfl, ?_⟩
      · simp [exponentText, JsonNumber.chars, Json.fractionChars, Json.exponentChars, signText]
      · simp
    | cons d ds =>
      refine ⟨⟨false, [c], some (d :: ds), some (place + ((c :: d :: ds).length : Int) - 1)⟩, rfl,
        ⟨by simp, hwhole, .inr hhead, by simp, fun l hl e he => ?_⟩, ?_, rfl, ?_⟩
      · obtain rfl := Option.some.inj hl
        exact hdigits e (List.mem_cons_of_mem _ he)
      · simp [exponentText, JsonNumber.chars, Json.fractionChars, Json.exponentChars, signText]
      · simp only [Option.getD_some, List.length_cons]
        omega

/-- A whole number set with a point has one more zero, behind the point. -/
theorem denotes_whole (zeros : Nat) : JsonNumber.Denotes
    ⟨false, digits ++ List.replicate zeros '0', some ['0'], none⟩
    (positionalText true digits (.ofNat zeros)) (digitsValue digits * 10 ^ (zeros + 1))
    (.ofNat zeros - (zeros + 1 : Nat)) := by
  have hhead' : (digits ++ List.replicate zeros '0').head? ≠ some '0' := by
    rwa [List.head?_append_of_ne_nil _ hne]
  refine ⟨⟨by simp [hne], fun c hc => ?_, .inr hhead', by simp, fun l hl c hc => ?_⟩, ?_, ?_, ?_⟩
  · exact (List.mem_append.mp hc).elim (hdigits c) isDigit_of_mem_zeros
  · obtain rfl := Option.some.inj hl
    rw [List.mem_singleton.mp hc]
    rfl
  · simp [positionalText, JsonNumber.chars, Json.fractionChars, Json.exponentChars, signText]
  · have hzeros : List.replicate zeros '0' ++ ['0'] = List.replicate (zeros + 1) '0' :=
      List.replicate_succ'.symm
    rw [Option.getD_some, List.append_assoc, hzeros, digitsValue_append_zeros]
  · simp

/-- Digits set with a point denote what they denote with their last digit at its place, if need be
with zeros behind them. -/
theorem exists_denotes_positionalText (place : Int) : ∃ (n : JsonNumber) (zeros : Nat),
    n.negative = false ∧
    n.Denotes (positionalText true digits place) (digitsValue digits * 10 ^ zeros)
      (place - zeros) ∧ (zeros = 0 ∨ (zeros : Int) = place + 1) := by
  cases place with
  | ofNat zeros =>
    exact ⟨_, zeros + 1, rfl, denotes_whole hne hdigits hhead zeros, .inr rfl⟩
  | negSucc k =>
    by_cases hlt : k + 1 < digits.length
    · have hdenotes := denotes_point_among hdigits hhead hlt
      exact ⟨_, 0, rfl, by simpa using hdenotes, .inl rfl⟩
    · have hdenotes := denotes_point_before hne hdigits hlt
      exact ⟨_, 0, rfl, by simpa using hdenotes, .inl rfl⟩

end Layout

/-- The digits to which a decimal is trimmed do not start with zero. -/
theorem Decimal.head?_trimmed {d : Decimal} (hd : d.significand ≠ 0) :
    d.trimmed.1.head? ≠ some '0' := by
  obtain ⟨hne, -, -⟩ := trimmed_spec hd
  obtain ⟨zeros, happend, -⟩ := d.trimmed_append_zeros
  have hleading := Json.leading_decimalDigits d.significand
  rw [← happend] at hleading
  rcases hleading with hzero | hleading
  · rw [happend] at hzero
    have hsignificand := digitsValue_decimalDigits d.significand
    rw [hzero] at hsignificand
    exact absurd hsignificand.symm hd
  · rwa [List.head?_append_of_ne_nil _ hne] at hleading

/-! ## Magnitudes -/

/-- The digits to which the shortest decimal of a magnitude is trimmed start with none that is zero,
and their value and the place of the last one are bounded as those of the decimal are. -/
theorem trimmed_shortest_bounds {m : Magnitude} (hm : m.significand ≠ 0) :
    (m.shortest .even).trimmed.1.head? ≠ some '0' ∧
      digitsValue (m.shortest .even).trimmed.1 ≤ 10 ^ 17 ∧ -324 ≤ (m.shortest .even).trimmed.2 := by
  have hne := significand_ne_zero_of_ofDecimal hm (m.ofDecimal_shortest .even)
  obtain ⟨hbound, hplace, -⟩ := Magnitude.shortest_bounds .even hm
  obtain ⟨zeros, happend, hexponent⟩ := (m.shortest .even).trimmed_append_zeros
  have hvalue : digitsValue (m.shortest .even).trimmed.1 * 10 ^ zeros =
      (m.shortest .even).significand := by
    rw [← digitsValue_append_zeros, happend, digitsValue_decimalDigits]
  refine ⟨Decimal.head?_trimmed hne, Nat.le_trans ?_ hbound, by omega⟩
  rw [← hvalue]
  exact Nat.le_mul_of_pos_right _ (Nat.pow_pos (by decide))

/-- Powers of ten from the 309th on are too large for a finite number, which has no more than 2098
binary digits. -/
theorem exists_two_pow_le : ∃ digits place, digits = 53 + 2045 ∧ place = 309 ∧
    2 ^ digits ≤ 10 ^ place * unitsPerOne :=
  ⟨2098, 309, rfl, rfl, by decide +kernel⟩

/-- A finite number that is not zero is not read from a decimal with a larger power of ten. -/
theorem exponent_le_of_ofDecimal {significand : Nat} {exponent : Int} {m : Magnitude}
    (hsignificand : significand ≠ 0)
    (h : Binary64.ofDecimal false significand exponent = .finite false m) : exponent ≤ 308 := by
  cases exponent with
  | negSucc k => exact Int.le_trans (Int.negSucc_lt_zero k).le (by decide)
  | ofNat k =>
    refine Int.not_lt.mp fun hlarge => ?_
    have hk : 309 ≤ k := by
      rw [Int.ofNat_eq_natCast] at hlarge
      omega
    have hnearest : Magnitude.nearest? (significand * 10 ^ k * unitsPerOne) 1 = some m := by
      rw [Binary64.ofDecimal] at h
      exact Magnitude.nearest?_of_round h
    have hhalf := (Magnitude.half_digit_of_nearest? Nat.one_pos hnearest).2
    have hunits : 2 * m.units + 2 ^ m.exponent < 2 * (2 ^ 53 * 2 ^ m.exponent) := by
      have hlt := m.canonical.1
      rw [Magnitude.units]
      nlinarith [Nat.two_pow_pos m.exponent]
    have hlt : significand * 10 ^ k * unitsPerOne < 2 ^ 53 * 2 ^ m.exponent := by omega
    obtain ⟨digits, place, hdigits, hplace, hpow⟩ := exists_two_pow_le
    have hmax : 2 ^ 53 * 2 ^ m.exponent ≤ 2 ^ digits := by
      rw [← Nat.pow_add]
      have hexponent := m.canonical.2.1
      exact Nat.pow_le_pow_right (by decide) (by omega)
    have hlarge : 10 ^ place * unitsPerOne ≤ significand * 10 ^ k * unitsPerOne := by
      refine Nat.mul_le_mul_right _
        (Nat.le_trans (Nat.pow_le_pow_right (by decide) (hplace ▸ hk)) ?_)
      exact Nat.le_mul_of_pos_left _ (Nat.pos_of_ne_zero hsignificand)
    have htotal := Nat.le_trans (Nat.le_trans hmax hpow) hlarge
    exact absurd hlt (Nat.not_lt.mpr htotal)

/-- The text of a magnitude as data denotes a decimal that is rounded to it, and a reader has room
for its significand. -/
theorem exists_denotes_magnitudeText {m : Magnitude} (hm : m.significand ≠ 0) :
    ∃ (n : JsonNumber) (significand : Nat) (exponent : Int), n.negative = false ∧
      n.Denotes (NumberFormat.data.magnitudeText m) significand exponent ∧
      Binary64.ofDecimal false significand exponent = .finite false m ∧
      significand ≠ 0 ∧ significand ≤ 10 ^ 17 ∧ -324 ≤ exponent ∧ exponent ≤ 308 := by
  have hne := significand_ne_zero_of_ofDecimal hm (m.ofDecimal_shortest .even)
  obtain ⟨hnil, hdigits, hread⟩ := Decimal.trimmed_spec hne
  rw [Magnitude.ofDecimal_shortest] at hread
  obtain ⟨hhead, hbound, hplace⟩ := trimmed_shortest_bounds hm
  have htext : NumberFormat.data.magnitudeText m =
      let trimmed := (m.shortest .even).trimmed
      let leading := trimmed.2 + (trimmed.1.length : Int) - 1
      if -5 ≤ leading ∧ leading ≤ 15 then positionalText true trimmed.1 trimmed.2
      else exponentText trimmed.1 leading := by
    rw [NumberFormat.magnitudeText, if_neg hm]
    simp [NumberFormat.data]
  rw [htext]
  generalize (m.shortest .even).trimmed = d at *
  obtain ⟨digits, place⟩ := d
  simp only at *
  have hvalue := significand_ne_zero_of_ofDecimal hm hread
  split
  · next hleading =>
    obtain ⟨n, zeros, hsign, hdenotes, hzeros⟩ :=
      exists_denotes_positionalText hnil hdigits hhead place
    have hread' : Binary64.ofDecimal false (digitsValue digits * 10 ^ zeros) (place - zeros) =
        .finite false m := by
      rw [Binary64.ofDecimal_mul_pow, Int.sub_add_cancel, hread]
    have hvalue' := Nat.mul_ne_zero hvalue (Nat.pow_pos (n := zeros) (show 0 < 10 by decide)).ne'
    refine ⟨n, _, _, hsign, hdenotes, hread', hvalue', ?_, ?_,
      exponent_le_of_ofDecimal hvalue' hread'⟩
    · rcases hzeros with rfl | hzeros
      · rwa [Nat.pow_zero, Nat.mul_one]
      · have hlt := digitsValue_lt hdigits
        calc digitsValue digits * 10 ^ zeros
            ≤ 10 ^ digits.length * 10 ^ zeros := Nat.mul_le_mul_right _ hlt.le
          _ = 10 ^ (digits.length + zeros) := (Nat.pow_add _ _ _).symm
          _ ≤ 10 ^ 17 := Nat.pow_le_pow_right (by decide) (by omega)
    · omega
  · obtain ⟨n, hsign, hdenotes⟩ := exists_denotes_exponentText hnil hdigits hhead place
    exact ⟨n, _, _, hsign, hdenotes, hread, hvalue, hbound, hplace,
      exponent_le_of_ofDecimal hvalue hread⟩

end Calculator
