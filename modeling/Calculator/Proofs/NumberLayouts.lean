import Calculator.Proofs.Rereading
import Calculator.Proofs.TiedDecimals

/-!
# Layouts of the shortest decimals

Digits without zeros at the end, and the place of the last one, are the same for all decimals that
are one number. So the text of a magnitude depends on the number alone that its shortest decimal
is: it denotes this number, in every format, and has its first digit where the number has it.
-/

namespace Calculator

/-! ## Trimmed decimals -/

/-- Zeros behind the digits of a number multiply it by a power of ten. -/
theorem decimalDigits_mul_pow {n : Nat} (hn : n ≠ 0) (zeros : Nat) :
    decimalDigits (n * 10 ^ zeros) = decimalDigits n ++ List.replicate zeros '0' := by
  induction zeros with
  | zero => simp
  | succ zeros ih =>
    have hpos : 0 < n * 10 ^ zeros :=
      Nat.mul_pos (Nat.pos_of_ne_zero hn) (Nat.pow_pos (by decide))
    have happend : decimalDigits (n * 10 ^ zeros) ++ ['0'] =
        decimalDigits (10 * (n * 10 ^ zeros)) :=
      Nat.toDigits_append_toDigits (b := 10) (d := 0) (by decide) hpos (by decide)
    rw [List.replicate_succ', ← List.append_assoc, ← ih, happend, Nat.pow_succ, ← Nat.mul_assoc,
      Nat.mul_comm 10]

namespace Decimal

/-- Zeros at the end of a decimal do not matter for the digits to which it is trimmed. -/
theorem trimmed_mul_pow {significand : Nat} (hs : significand ≠ 0) (zeros : Nat) (exponent : Int) :
    trimmed ⟨significand * 10 ^ zeros, exponent⟩ = trimmed ⟨significand, exponent + zeros⟩ := by
  have hzeros : ∀ c ∈ List.replicate zeros '0', (c == '0') = true := by
    intro c hc
    rw [List.eq_of_mem_replicate hc]
    rfl
  simp only [trimmed, decimalDigits_mul_pow hs, List.reverse_append, List.reverse_replicate,
    List.takeWhile_append_of_pos hzeros, List.dropWhile_append_of_pos hzeros, List.length_append,
    List.length_replicate, Nat.cast_add, Int.add_assoc]

/-- Decimals that are the same number are trimmed to the same digits. -/
theorem trimmed_congr {d e : Decimal} (hd : d.significand ≠ 0) (h : d.toRat = e.toRat) :
    d.trimmed = e.trimmed := by
  have hle : ∀ d e : Decimal, e.significand ≠ 0 → d.toRat = e.toRat → d.exponent ≤ e.exponent →
      d.trimmed = e.trimmed := by
    intro d e he h hle
    obtain ⟨zeros, hzeros⟩ : ∃ zeros : Nat, e.exponent = d.exponent + zeros :=
      ⟨(e.exponent - d.exponent).toNat, by omega⟩
    have hten : (10 : ℚ) ^ d.exponent ≠ 0 := zpow_ne_zero _ (by norm_num)
    have hsignificand : d.significand = e.significand * 10 ^ zeros := by
      have hshift := toRat_mul_pow e.significand zeros d.exponent
      rw [← hzeros, ← h, toRat, toRat, mul_left_inj' hten, Nat.cast_inj] at hshift
      exact hshift.symm
    have htrimmed := trimmed_mul_pow he zeros d.exponent
    rwa [← hsignificand, ← hzeros] at htrimmed
  have he : e.significand ≠ 0 := by
    rwa [Ne, ← e.toRat_eq_zero_iff, ← h, d.toRat_eq_zero_iff]
  rcases Int.le_total d.exponent e.exponent with hbefore | hbehind
  · exact hle d e he h hbefore
  · exact (hle e d hd h.symm hbehind).symm

/-- The digits to which a decimal is trimmed are the decimal. -/
theorem toRat_trimmed (d : Decimal) : toRat ⟨digitsValue d.trimmed.1, d.trimmed.2⟩ = d.toRat := by
  obtain ⟨zeros, hdigits, hplace⟩ := d.trimmed_append_zeros
  rw [hplace, ← toRat_mul_pow, ← digitsValue_append_zeros, hdigits, digitsValue_decimalDigits]

/-- The place of the first digit of a decimal. -/
def leading (d : Decimal) : Int :=
  d.trimmed.2 + (d.trimmed.1.length : Int) - 1

end Decimal

/-- Digits of which the first one is not zero have at least the value of a one at its place. -/
theorem pow_le_digitsValue {c : Char} {cs : List Char} (hc : c.isDigit = true) (hne : c ≠ '0') :
    10 ^ cs.length ≤ digitsValue (c :: cs) := by
  have hpos : 1 ≤ digitValue c := by
    obtain ⟨hle, -⟩ := Char.isDigit_iff_toNat.mp hc
    have hother : c.toNat ≠ '0'.toNat := fun hsame => hne (Char.toNat_inj.mp hsame)
    rw [digitValue]
    omega
  rw [digitsValue_cons]
  calc 10 ^ cs.length ≤ digitValue c * 10 ^ cs.length := Nat.le_mul_of_pos_left _ hpos
    _ ≤ digitValue c * 10 ^ cs.length + digitsValue cs := Nat.le_add_right _ _

namespace Decimal

/-- A decimal lies between the powers of ten at its first digit and at the place before it. -/
theorem leading_bounds {d : Decimal} (hd : d.significand ≠ 0) :
    10 ^ d.leading ≤ d.toRat ∧ d.toRat < 10 ^ (d.leading + 1) := by
  obtain ⟨hne, hdigits, -⟩ := trimmed_spec hd
  have hhead := head?_trimmed hd
  rw [← d.toRat_trimmed, leading]
  generalize d.trimmed = trimmed at *
  obtain ⟨digits, place⟩ := trimmed
  have hten : (0 : ℚ) < 10 ^ place := by positivity
  cases digits with
  | nil => exact absurd rfl hne
  | cons c cs =>
    have hc : c ≠ '0' := fun hzero => hhead (congrArg some hzero)
    have hlow : ((10 ^ cs.length : Nat) : ℚ) ≤ digitsValue (c :: cs) :=
      Nat.cast_le.mpr (pow_le_digitsValue (hdigits c List.mem_cons_self) hc)
    have hhigh : (digitsValue (c :: cs) : ℚ) < (10 ^ (cs.length + 1) : Nat) :=
      Nat.cast_lt.mpr (digitsValue_lt hdigits)
    have hfirst : place + ((c :: cs).length : Int) - 1 = cs.length + place := by
      rw [List.length_cons]
      omega
    have hnext : (cs.length + place + 1 : Int) = (cs.length + 1 : Nat) + place := by omega
    rw [hfirst, hnext, toRat, zpow_add₀ (by norm_num), zpow_add₀ (by norm_num), zpow_natCast,
      zpow_natCast]
    push_cast at hlow hhigh
    exact ⟨mul_le_mul_of_nonneg_right hlow hten.le, mul_lt_mul_of_pos_right hhigh hten⟩

/-- A decimal has its first digit at a place or before it if it is at least the power of ten. -/
theorem le_leading_iff {d : Decimal} (hd : d.significand ≠ 0) (place : Int) :
    place ≤ d.leading ↔ 10 ^ place ≤ d.toRat := by
  obtain ⟨hlow, hhigh⟩ := leading_bounds hd
  constructor
  · intro hle
    exact (zpow_le_zpow_right₀ (by norm_num) hle).trans hlow
  · intro hle
    have hlt := hle.trans_lt hhigh
    rw [zpow_lt_zpow_iff_right₀ (by norm_num)] at hlt
    omega

end Decimal

/-! ## Powers of ten -/

namespace Magnitude

/-- If the shortest decimal of the number nearest to a power of ten is this power, and the number is
not less than it, then another number and its shortest decimal lie on the same side of it. -/
theorem le_toRat_shortest_iff {place : Int} {t : Magnitude} (hread : t.readsFrom ⟨1, place⟩ = true)
    (hreach : t.reaches place = true) (hshortest : t.shortest .even = ⟨1, place⟩) (m : Magnitude) :
    10 ^ place ≤ (m.shortest .even).toRat ↔ 10 ^ place ≤ m.toRat false := by
  have hone : (0 : ℚ) < unitsPerOne := Nat.cast_pos.mpr Binary64.unitsPerOne_pos
  have hpower : Decimal.toRat ⟨1, place⟩ = 10 ^ place := by
    rw [Decimal.toRat, Nat.cast_one, one_mul]
  have hexact := m.readsFrom_exactDecimal
  have hshort := m.readsFrom_shortest .even
  -- a number from which the power of ten separates its decimal is the one nearest to the power
  have hsame : m.readsFrom ⟨1, place⟩ = true → m = t := by
    intro h
    have heq := (of_decide_eq_true h).symm.trans (of_decide_eq_true hread)
    injection heq
  rw [← hpower, ← toRat_exactDecimal]
  constructor
  · intro hle
    refine not_lt.mp fun hlt => ?_
    obtain rfl := hsame (readsFrom_of_between hexact hshort hlt.le hle)
    rw [reaches_iff_le, mul_comm, ← le_div_iff₀ hone, ← toRat_false, ← hpower,
      ← toRat_exactDecimal] at hreach
    exact absurd hlt (not_lt.mpr hreach)
  · intro hle
    refine not_lt.mp fun hlt => ?_
    obtain rfl := hsame (readsFrom_of_between hshort hexact hlt.le hle)
    rw [hshortest] at hlt
    exact lt_irrefl _ hlt

/-- The shortest decimal of a number has its first digit between the fifth place behind the point
and the sixteenth before it exactly for numbers from 10⁻⁵ on and below 10¹⁶. -/
theorem leading_shortest_iff {m : Magnitude} (hm : m.significand ≠ 0) :
    -5 ≤ (m.shortest .even).leading ∧ (m.shortest .even).leading ≤ 15 ↔
      10 ^ (-5 : Int) ≤ m.toRat false ∧ m.toRat false < 10 ^ 16 := by
  have hd := significand_ne_zero_of_ofDecimal hm (m.ofDecimal_shortest .even)
  -- 10⁻⁵ is rounded up, and 10¹⁶ is a number
  have hlow : 10 ^ (-5 : Int) ≤ (m.shortest .even).toRat ↔ 10 ^ (-5 : Int) ≤ m.toRat false :=
    le_toRat_shortest_iff (t := ⟨0x14f8b588e368f1, 1005, by decide⟩) (by decide +kernel)
      (by decide +kernel) (by decide +kernel) m
  have hhigh : 10 ^ (16 : Int) ≤ (m.shortest .even).toRat ↔ 10 ^ (16 : Int) ≤ m.toRat false :=
    le_toRat_shortest_iff (t := ⟨5 ^ 16 * 2 ^ 15, 1075, by decide⟩) (by decide +kernel)
      (by decide +kernel) (by decide +kernel) m
  have hnext : (m.shortest .even).leading ≤ 15 ↔ ¬ 16 ≤ (m.shortest .even).leading := by omega
  have hsixteen : (10 : ℚ) ^ (16 : Int) = 10 ^ 16 := by norm_num
  rw [hnext, Decimal.le_leading_iff hd, Decimal.le_leading_iff hd, hlow, hhigh, hsixteen, not_le]

end Magnitude

/-! ## Layouts -/

namespace JsonNumber

/-- The decimal that a number of JSON is without its sign. -/
def decimal (n : JsonNumber) : Decimal :=
  ⟨digitsValue (n.whole ++ n.fraction.getD []), n.exponent.getD 0 - (n.fraction.getD []).length⟩

/-- A text is that of a number of JSON with a sign, and without it the number is `q`. -/
structure IsTextOf (n : JsonNumber) (text : List Char) (negative : Bool) (q : ℚ) : Prop where
  proper : n.Proper
  chars_eq : n.chars = text
  negative_eq : n.negative = negative
  toRat_eq : n.decimal.toRat = q

variable {n : JsonNumber} {text : List Char} {q : ℚ}

/-- A text that has the digits of a significand and their place in it is a text of the decimal. -/
theorem Denotes.isTextOf {significand : Nat} {exponent : Int}
    (h : n.Denotes text significand exponent) (hsign : n.negative = false) :
    n.IsTextOf text false (Decimal.toRat ⟨significand, exponent⟩) := by
  refine ⟨h.proper, h.chars_eq, hsign, ?_⟩
  rw [decimal, h.digits_eq, h.places_eq]

/-- A sign may be written in front of a text. -/
theorem IsTextOf.withSign (h : n.IsTextOf text false q) (negative : Bool) :
    (n.withSign negative).IsTextOf (signText negative ++ text) negative q := by
  refine ⟨h.proper.withSign negative, ?_, rfl, h.toRat_eq⟩
  rw [chars_withSign h.negative_eq, h.chars_eq]

/-- A text is that of one number only. -/
theorem IsTextOf.unique {n' : JsonNumber} {negative negative' : Bool} {q' : ℚ}
    (h : n.IsTextOf text negative q) (h' : n'.IsTextOf text negative' q') : q = q' := by
  have hend : Json.EndsValue [] := nofun
  have hread := Json.readNumber_append h.proper hend
  have hread' := Json.readNumber_append h'.proper hend
  rw [h.chars_eq, ← h'.chars_eq, hread'] at hread
  obtain rfl := (Prod.mk.inj (Option.some.inj hread)).1
  exact h.toRat_eq.symm.trans h'.toRat_eq

end JsonNumber

section Layout

variable {digits : List Char} (hne : digits ≠ []) (hdigits : ∀ c ∈ digits, c.isDigit = true)
  (hhead : digits.head? ≠ some '0')

include hne hdigits hhead

/-- A whole number set without a point has only zeros behind its digits. -/
theorem isTextOf_whole (zeros : Nat) : JsonNumber.IsTextOf
    ⟨false, digits ++ List.replicate zeros '0', none, none⟩
    (positionalText false digits (.ofNat zeros)) false
    (Decimal.toRat ⟨digitsValue digits, .ofNat zeros⟩) := by
  have hhead' : (digits ++ List.replicate zeros '0').head? ≠ some '0' := by
    rwa [List.head?_append_of_ne_nil _ hne]
  refine ⟨⟨by simp [hne], fun c hc => ?_, .inr hhead', nofun, nofun⟩, ?_, rfl, ?_⟩
  · exact (List.mem_append.mp hc).elim (hdigits c) isDigit_of_mem_zeros
  · simp [positionalText, JsonNumber.chars, Json.fractionChars, Json.exponentChars, signText]
  · have hshift := Decimal.toRat_mul_pow (digitsValue digits) zeros 0
    rw [Int.zero_add, ← digitsValue_append_zeros] at hshift
    simpa [JsonNumber.decimal] using hshift

/-- Digits set without an exponent are a text of the decimal with its last digit at their place. -/
theorem exists_isTextOf_positionalText (pointed : Bool) (place : Int) : ∃ n : JsonNumber,
    n.IsTextOf (positionalText pointed digits place) false
      (Decimal.toRat ⟨digitsValue digits, place⟩) := by
  have hpointed : ∃ n : JsonNumber, n.IsTextOf (positionalText true digits place) false
      (Decimal.toRat ⟨digitsValue digits, place⟩) := by
    obtain ⟨n, zeros, hsign, hdenotes, -⟩ :=
      exists_denotes_positionalText hne hdigits hhead place
    have hn := hdenotes.isTextOf hsign
    rw [Decimal.toRat_mul_pow, Int.sub_add_cancel] at hn
    exact ⟨n, hn⟩
  cases pointed with
  | true => exact hpointed
  | false =>
    cases place with
    | ofNat zeros => exact ⟨_, isTextOf_whole hne hdigits hhead zeros⟩
    | negSucc k => exact hpointed

end Layout

/-- The texts of zero denote zero. -/
theorem exists_isTextOf_zero (pointed : Bool) : ∃ n : JsonNumber,
    n.IsTextOf (if pointed then ['0', '.', '0'] else ['0']) false 0 := by
  cases pointed with
  | true => exact ⟨_, JsonNumber.proper_zero, rfl, rfl, (Decimal.toRat_eq_zero_iff _).mpr rfl⟩
  | false =>
    have hzero : ∀ c ∈ ['0'], c.isDigit = true := fun c hc => List.mem_singleton.mp hc ▸ rfl
    refine ⟨⟨false, ['0'], none, none⟩, ⟨by decide, hzero, .inl rfl, by decide, ?_⟩, rfl, rfl,
      (Decimal.toRat_eq_zero_iff _).mpr rfl⟩
    intro digits hdigits
    cases hdigits

/-- **The text of a magnitude denotes its shortest decimal**, in every format. -/
theorem exists_isTextOf_magnitudeText (format : NumberFormat) (m : Magnitude) :
    ∃ n : JsonNumber, n.IsTextOf (format.magnitudeText m) false (m.shortest format.tie).toRat := by
  by_cases hm : m.significand = 0
  · rw [NumberFormat.magnitudeText, if_pos hm, Magnitude.eq_zero hm, Magnitude.toRat_shortest_zero]
    exact exists_isTextOf_zero format.pointed
  · have hd := significand_ne_zero_of_ofDecimal hm (m.ofDecimal_shortest format.tie)
    obtain ⟨hne, hdigits, -⟩ := Decimal.trimmed_spec hd
    have hhead := Decimal.head?_trimmed hd
    have hpositional := exists_isTextOf_positionalText hne hdigits hhead format.pointed
      (m.shortest format.tie).trimmed.2
    obtain ⟨n, hsign, hdenotes⟩ := exists_denotes_exponentText hne hdigits hhead
      (m.shortest format.tie).trimmed.2
    have hexponent := hdenotes.isTextOf hsign
    rw [Decimal.toRat_trimmed] at hpositional hexponent
    rw [NumberFormat.magnitudeText, if_neg hm]
    simp only
    split_ifs
    · exact hpositional
    · exact ⟨n, hexponent⟩

/-- A number inside a text has no exponent. -/
theorem magnitudeText_plain {m : Magnitude} (hm : m.significand ≠ 0) :
    NumberFormat.plain.magnitudeText m =
      positionalText false (m.shortest .away).trimmed.1 (m.shortest .away).trimmed.2 := by
  rw [NumberFormat.magnitudeText, if_neg hm]
  rfl

/-- A number as data has an exponent below 10⁻⁵ and from 10¹⁶ on. -/
theorem magnitudeText_data {m : Magnitude} (hm : m.significand ≠ 0) :
    NumberFormat.data.magnitudeText m =
      if 10 ^ (-5 : Int) ≤ m.toRat false ∧ m.toRat false < 10 ^ 16 then
        positionalText true (m.shortest .even).trimmed.1 (m.shortest .even).trimmed.2
      else exponentText (m.shortest .even).trimmed.1 (m.shortest .even).leading := by
  simp only [← Magnitude.leading_shortest_iff hm, Decimal.leading]
  rw [NumberFormat.magnitudeText, if_neg hm]
  simp [NumberFormat.data]

end Calculator
