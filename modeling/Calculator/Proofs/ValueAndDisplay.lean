import Calculator.Proofs.NumberLayouts
import Calculator.Proofs.ResultText

/-!
# The value of an outcome and its display

An outcome shows its value twice: as a number of JSON, and as the text of the result. One of them
prefers the even one of two shortest decimals and the other one the larger, so the two denote the
same number unless the value is tied. From 10⁻⁵ on and below 10¹⁶, and for zero, they are then the
same characters: a whole number has a point and a zero in both, and any other number has digits
behind its point.
-/

namespace Calculator

open Binary64 (exists_unitsPerOne_eq unitsPerOne_pos)

/-! ## Whole numbers -/

/-- A short whole number is the number of its ones, of which there are fewer than 10¹⁶, and none
only for zero. -/
theorem toRat_of_isShortWhole {negative : Bool} {m : Magnitude}
    (h : isShortWhole (.finite negative m) = true) :
    m.toRat false = (m.units / unitsPerOne : Nat) ∧ m.units / unitsPerOne < 10 ^ 16 ∧
      (m.significand ≠ 0 → 0 < m.units / unitsPerOne) := by
  have hone : (unitsPerOne : ℚ) ≠ 0 := Nat.cast_ne_zero.mpr unitsPerOne_pos.ne'
  rw [isShortWhole, Bool.and_eq_true, beq_iff_eq, decide_eq_true_eq] at h
  have hwhole : m.toRat false = (m.units / unitsPerOne : Nat) := by
    rw [Magnitude.toRat_false, div_eq_iff hone, ← Nat.cast_mul,
      Nat.div_mul_cancel (Nat.dvd_of_mod_eq_zero h.1)]
  refine ⟨hwhole, h.2, fun hm => ?_⟩
  rw [Ne, ← m.toRat_eq_zero_iff, hwhole, Nat.cast_eq_zero] at hm
  exact Nat.pos_of_ne_zero hm

/-- Zero is a short whole number. -/
theorem significand_ne_zero_of_isShortWhole {negative : Bool} {m : Magnitude}
    (h : isShortWhole (.finite negative m) = false) : m.significand ≠ 0 := by
  intro hm
  rw [isShortWhole, m.units_eq_zero_iff.mpr hm, Nat.zero_mod, Nat.zero_div] at h
  cases h

/-- A short whole number is its own shortest decimal. -/
theorem toRat_shortest_of_isShortWhole (tie : TieRule) {negative : Bool} {m : Magnitude}
    (h : isShortWhole (.finite negative m) = true) : (m.shortest tie).toRat = m.toRat false := by
  by_cases hm : m.significand = 0
  · rw [m.toRat_eq_zero_iff.mpr hm, Magnitude.eq_zero hm, Magnitude.toRat_shortest_zero]
  · obtain ⟨hwhole, hlt, hpos⟩ := toRat_of_isShortWhole h
    rw [Magnitude.toRat_shortest_of_whole tie hwhole (hpos hm) hlt, hwhole]

/-- A short whole number is not tied. -/
theorem not_isTied_of_isShortWhole {negative : Bool} {m : Magnitude}
    (h : isShortWhole (.finite negative m) = true) : ¬ m.IsTied := by
  rw [← m.toRat_shortest_eq_iff, toRat_shortest_of_isShortWhole .away h,
    toRat_shortest_of_isShortWhole .even h]

/-- A short whole number as data has all its digits, a point and a zero. -/
theorem magnitudeText_data_of_isShortWhole {negative : Bool} {m : Magnitude}
    (h : isShortWhole (.finite negative m) = true) :
    NumberFormat.data.magnitudeText m =
      decimalDigits (m.units / unitsPerOne) ++ ['.', '0'] := by
  by_cases hm : m.significand = 0
  · rw [NumberFormat.magnitudeText, if_pos hm, m.units_eq_zero_iff.mpr hm, Nat.zero_div]
    rfl
  · obtain ⟨hwhole, hlt, hpos⟩ := toRat_of_isShortWhole h
    generalize m.units / unitsPerOne = w at *
    have hrange : 10 ^ (-5 : Int) ≤ m.toRat false ∧ m.toRat false < 10 ^ 16 := by
      have htiny : (10 : ℚ) ^ (-5 : Int) ≤ 1 := by norm_num
      rw [hwhole]
      exact ⟨htiny.trans (Nat.one_le_cast.mpr (hpos hm)), by exact_mod_cast hlt⟩
    have htrimmed : (m.shortest .even).trimmed = Decimal.trimmed ⟨w, 0⟩ := by
      refine Decimal.trimmed_congr
        (significand_ne_zero_of_ofDecimal hm (m.ofDecimal_shortest .even)) ?_
      rw [toRat_shortest_of_isShortWhole .even h, hwhole, Decimal.toRat, zpow_zero, mul_one]
    obtain ⟨zeros, hdigits, hplace⟩ := Decimal.trimmed_append_zeros ⟨w, 0⟩
    rw [magnitudeText_data hm, if_pos hrange, htrimmed, hplace, Int.zero_add, ← hdigits]
    rfl

/-- If the shortest decimal of a number is whole, then the number is. -/
theorem isIntegral_of_toRat_shortest {m : Magnitude} {tie : TieRule} {k : Nat}
    (h : (m.shortest tie).toRat = k) : m.units % unitsPerOne = 0 := by
  obtain ⟨places, -, hplaces⟩ := exists_unitsPerOne_eq
  have hread : Binary64.ofDecimal false k 0 = .finite false m := by
    rw [← m.ofDecimal_shortest tie]
    apply Binary64.ofDecimal_congr (d := ⟨k, 0⟩)
    rw [h, Decimal.toRat, zpow_zero, mul_one]
  rw [Binary64.ofDecimal_zero_exponent, Binary64.ofNat] at hread
  have hones : 2 ^ places ∣ k * unitsPerOne := by
    rw [hplaces]
    exact Nat.dvd_mul_left _ _
  have hdvd := Magnitude.dvd_units_of_nearest? (Magnitude.nearest?_of_round hread) hones
  rw [← hplaces] at hdvd
  exact Nat.mod_eq_zero_of_dvd hdvd

/-! ## Other numbers -/

/-- A number below 10¹⁶ that is not whole has a digit behind the point. -/
theorem place_trimmed_shortest_lt {negative : Bool} {m : Magnitude} (hlt : m.toRat false < 10 ^ 16)
    (hshort : isShortWhole (.finite negative m) = false) (tie : TieRule) :
    (m.shortest tie).trimmed.2 < 0 := by
  refine Int.not_le.mp fun hplace => ?_
  obtain ⟨zeros, hzeros⟩ := Int.eq_ofNat_of_zero_le hplace
  have hwhole : m.units % unitsPerOne = 0 := by
    have hshortest : (m.shortest tie).toRat =
        (digitsValue (m.shortest tie).trimmed.1 * 10 ^ zeros : Nat) := by
      rw [← Decimal.toRat_trimmed, Decimal.toRat, hzeros, zpow_natCast]
      push_cast
      rfl
    exact isIntegral_of_toRat_shortest hshortest
  have hones : m.units / unitsPerOne < 10 ^ 16 := by
    rw [Magnitude.toRat_false, div_lt_iff₀ (Nat.cast_pos.mpr unitsPerOne_pos)] at hlt
    rw [Nat.div_lt_iff_lt_mul unitsPerOne_pos]
    generalize unitsPerOne = one at hlt ⊢
    exact_mod_cast hlt
  rw [isShortWhole, hwhole, beq_self_eq_true, Bool.true_and, decide_eq_false_iff_not] at hshort
  exact hshort hones

/-- A number that is not whole, from 10⁻⁵ on and below 10¹⁶, has the same text as data and inside a
text, unless it is tied. -/
theorem magnitudeText_data_eq_plain {negative : Bool} {m : Magnitude} (hm : m.significand ≠ 0)
    (hrange : 10 ^ (-5 : Int) ≤ m.toRat false ∧ m.toRat false < 10 ^ 16)
    (hshort : isShortWhole (.finite negative m) = false) (htied : ¬ m.IsTied) :
    NumberFormat.data.magnitudeText m = NumberFormat.plain.magnitudeText m := by
  have hsame : m.shortest .away = m.shortest .even := by
    by_contra hne
    exact htied (Magnitude.isTied_of_ne hm hne)
  have hplace := place_trimmed_shortest_lt hrange.2 hshort .even
  rw [magnitudeText_data hm, if_pos hrange, magnitudeText_plain hm, hsame]
  -- whether a whole number shows a point does not matter behind the point
  cases hlast : (m.shortest .even).trimmed.2 with
  | ofNat zeros =>
    rw [hlast] at hplace
    exact absurd hplace (Int.not_lt.mpr (Int.natCast_nonneg zeros))
  | negSucc k => rfl

/-! ## The two texts -/

/-- The value of an outcome is written as a sign and a number as data. -/
theorem toList_numberJson (negative : Bool) (m : Magnitude) :
    (numberJson (.finite negative m)).toList =
      signText negative ++ NumberFormat.data.magnitudeText m :=
  String.toList_ofList

/-- The display of a short whole number is its value. -/
theorem resultText_of_isShortWhole {negative : Bool} {m : Magnitude}
    (h : isShortWhole (.finite negative m) = true) :
    resultText (.finite negative m) = numberJson (.finite negative m) := by
  rw [resultText, resultChars, if_pos h, List.append_assoc, ← magnitudeText_data_of_isShortWhole h]
  rfl

/-- The display of any other number is written as a sign and a number inside a text. -/
theorem toList_resultText {negative : Bool} {m : Magnitude}
    (h : isShortWhole (.finite negative m) = false) :
    (resultText (.finite negative m)).toList =
      signText negative ++ NumberFormat.plain.magnitudeText m := by
  rw [resultText, String.toList_ofList, resultChars, if_neg (by simp [h])]
  rfl

/-- The value of an outcome is a sign and the shortest decimal that is even on ties. -/
theorem exists_isTextOf_numberJson (negative : Bool) (m : Magnitude) : ∃ n : JsonNumber,
    n.IsTextOf (numberJson (.finite negative m)).toList negative (m.shortest .even).toRat := by
  obtain ⟨n, hn⟩ := exists_isTextOf_magnitudeText .data m
  rw [toList_numberJson]
  exact ⟨_, hn.withSign negative⟩

/-- The display of an outcome is a sign and the shortest decimal that is larger on ties. -/
theorem exists_isTextOf_resultText (negative : Bool) (m : Magnitude) : ∃ n : JsonNumber,
    n.IsTextOf (resultText (.finite negative m)).toList negative (m.shortest .away).toRat := by
  cases h : isShortWhole (.finite negative m) with
  | true =>
    rw [resultText_of_isShortWhole h, toRat_shortest_of_isShortWhole .away h,
      ← toRat_shortest_of_isShortWhole .even h]
    exact exists_isTextOf_numberJson negative m
  | false =>
    obtain ⟨n, hn⟩ := exists_isTextOf_magnitudeText .plain m
    rw [toList_resultText h]
    exact ⟨_, hn.withSign negative⟩

/-! ## Outcomes -/

/-- Characters that are neither control characters nor have a meaning inside a text need no
escape. -/
theorem escapedChars_eq {c : Char} (hcontrol : 0x20 ≤ c.toNat) (hquote : c ≠ '"')
    (hbackslash : c ≠ '\\') : escapedChars c = [c] := by
  have hother : ∀ d : Char, d.toNat < 0x20 → c ≠ d := by
    rintro d hd rfl
    omega
  have hnot : ¬ c.toNat < 0x20 := Nat.not_lt.mpr hcontrol
  simp [escapedChars, hquote, hbackslash, hnot, hother '\x08' (by decide),
    hother '\t' (by decide), hother '\n' (by decide), hother '\x0c' (by decide),
    hother '\r' (by decide)]

/-- A text without a character that needs an escape stands between quotation marks as it is. -/
theorem quoted_eq {s : String} (h : ∀ c ∈ s.toList, escapedChars c = [c]) :
    quoted s = "\"" ++ s ++ "\"" := by
  have hchars : s.toList.flatMap escapedChars = s.toList := by
    rw [List.flatMap_congr h, List.flatMap_singleton']
  rw [quoted, hchars]
  apply String.toList_inj.mp
  simp

/-- The display of a finite number has only digits, a point and a sign in it. -/
theorem quoted_resultText (negative : Bool) (m : Magnitude) :
    quoted (resultText (.finite negative m)) =
      "\"" ++ resultText (.finite negative m) ++ "\"" := by
  obtain ⟨n, hn, hchars, -⟩ := exists_numeral_of_result negative m
  refine quoted_eq fun c hc => ?_
  rw [resultText, String.toList_ofList, hchars] at hc
  have hkind : c.isDigit = true ∨ c = '.' ∨ c = '-' := by
    rcases List.mem_append.mp hc with hsign | hnumeral
    · cases negative with
      | false => cases hsign
      | true => exact .inr (.inr (List.mem_singleton.mp hsign))
    · exact (hn.isDigit_or_eq_point hnumeral).imp_right .inl
  rcases hkind with hdigit | rfl | rfl
  · obtain ⟨hrange, -⟩ := Char.isDigit_iff_toNat.mp hdigit
    refine escapedChars_eq (Nat.le_trans (by decide) hrange) ?_ ?_
    all_goals
      rintro rfl
      revert hdigit
      decide
  · rfl
  · rfl

/-- The outcome of a finite number is an object with the number and its display. -/
theorem toJson_ofAnswer_finite (negative : Bool) (m : Magnitude) :
    (Outcome.ofAnswer (.ok (.finite negative m))).toJson =
      "\x7b\"success\":true,\"value\":" ++ numberJson (.finite negative m) ++
        ",\"display\":\"" ++ resultText (.finite negative m) ++ "\"\x7d" := by
  have hfields : (Outcome.ofAnswer (.ok (.finite negative m))).toJson =
      objectJson [("success", "true"), ("value", numberJson (.finite negative m)),
        ("display", quoted (resultText (.finite negative m)))] := rfl
  have hnames : quoted "success" = "\"success\"" ∧ quoted "value" = "\"value\"" ∧
      quoted "display" = "\"display\"" := by decide +kernel
  obtain ⟨hsuccess, hvalue, hdisplay⟩ := hnames
  apply String.toList_inj.mp
  simp [hfields, objectJson, hsuccess, hvalue, hdisplay, quoted_resultText]

/-! ## The value and its display -/

/-- **The value of an outcome and its display agree.** The outcome of a finite number is an object
with its value and its display. Both are its sign and a decimal that is rounded to it without the
sign, and the two decimals are the same number unless the number is tied. For zero, and from 10⁻⁵ on
and below 10¹⁶, the two texts are then the same characters, and on a tie they are not. A whole
number below 10¹⁶ is not tied. -/
theorem value_agrees_with_display (negative : Bool) (m : Magnitude) :
    let x := Binary64.finite negative m
    (Outcome.ofAnswer (.ok x)).toJson = "\x7b\"success\":true,\"value\":" ++ numberJson x ++
        ",\"display\":\"" ++ resultText x ++ "\"\x7d" ∧
      (m.significand = 0 ∨ 10 ^ (-5 : Int) ≤ m.toRat false ∧ m.toRat false < 10 ^ 16 →
        (numberJson x = resultText x ↔ ¬ m.IsTied)) ∧
      ∃ (n n' : JsonNumber) (p q : ℚ), n.IsTextOf (numberJson x).toList negative p ∧
        n'.IsTextOf (resultText x).toList negative q ∧
        (Binary64.finite false m).IsRounded p ∧ (Binary64.finite false m).IsRounded q ∧
        (p = q ↔ ¬ m.IsTied) ∧ (isShortWhole x = true → ¬ m.IsTied) := by
  intro x
  obtain ⟨n, hn⟩ := exists_isTextOf_numberJson negative m
  obtain ⟨n', hn'⟩ := exists_isTextOf_resultText negative m
  have hsame : (m.shortest .even).toRat = (m.shortest .away).toRat ↔ ¬ m.IsTied :=
    eq_comm.trans m.toRat_shortest_eq_iff
  have hvalue := Magnitude.isRounded_of_readsFrom (m.readsFrom_shortest .even)
  have hdisplay := Magnitude.isRounded_of_readsFrom (m.readsFrom_shortest .away)
  refine ⟨toJson_ofAnswer_finite negative m, fun hrange => ⟨fun htext => ?_, fun htied => ?_⟩,
    n, n', _, _, hn, hn', hvalue, hdisplay, hsame, not_isTied_of_isShortWhole⟩
  · rw [← htext] at hn'
    exact hsame.mp (hn.unique hn')
  · cases hshort : isShortWhole (.finite negative m) with
    | true => exact (resultText_of_isShortWhole hshort).symm
    | false =>
      have hm : m.significand ≠ 0 := significand_ne_zero_of_isShortWhole hshort
      apply String.toList_inj.mp
      rw [toList_numberJson, toList_resultText hshort,
        magnitudeText_data_eq_plain hm (hrange.resolve_left hm) hshort htied]

/-- A tenth of 2⁵³ is midway between two decimals with sixteen digits, and none with fewer digits
reads back as it. The value ends with the even one of the two digits, and the display with the other
one. -/
theorem display_ne_value_of_tie :
    let m : Magnitude := ⟨0x1999999999999a, 1071, by decide⟩
    m.IsTied ∧ (10 ^ (-5 : Int) ≤ m.toRat false ∧ m.toRat false < 10 ^ 16) ∧
      (Outcome.ofAnswer (.ok (.finite false m))).toJson = "\x7b\"success\":true," ++
        "\"value\":900719925474099.2,\"display\":\"900719925474099.3\"\x7d" ∧
      numberJson (.finite false m) ≠ resultText (.finite false m) := by
  intro m
  have htied : m.IsTied := Magnitude.isTied_of_ne (by decide) (by decide +kernel)
  have hsize : m.toRat false = 0x1999999999999a / 8 := by
    have hone : (unitsPerOne : ℚ) ≠ 0 := Nat.cast_ne_zero.mpr unitsPerOne_pos.ne'
    have heighths : m.units * 8 = 0x1999999999999a * unitsPerOne := by decide +kernel
    rw [Magnitude.toRat_false, div_eq_div_iff hone (by norm_num)]
    generalize m.units = units at heighths ⊢
    generalize unitsPerOne = one at heighths ⊢
    exact_mod_cast heighths
  refine ⟨htied, ?_, by decide +kernel, by decide +kernel⟩
  rw [hsize]
  constructor <;> norm_num

end Calculator
