import Calculator.Proofs.NumberText
import Calculator.Proofs.RoundingError

/-!
# Ties between the shortest decimals

The decimals that read back as a magnitude form an interval with the magnitude in it. So a decimal
that ends at some place reads back only if one of the two neighbours of the magnitude does that end
there, and the shortest decimal ends at the highest place where anything reads back. The two tie
rules choose different decimals exactly where the magnitude lies midway between two decimals that
end there.
-/

namespace Calculator

open Binary64 (exists_unitsPerOne_eq unitsPerOne_pos)

/-! ## Decimals as rational numbers -/

namespace Decimal

/-- The rational number that a decimal is. -/
def toRat (d : Decimal) : ℚ :=
  d.significand * 10 ^ d.exponent

/-- The size of a decimal in units is that of its rational number. -/
theorem units_eq (d : Decimal) : d.units = d.toRat * unitsPerOne :=
  rfl

/-- A decimal is zero if its significand is. -/
theorem toRat_eq_zero_iff (d : Decimal) : d.toRat = 0 ↔ d.significand = 0 := by
  have hten : (10 : ℚ) ^ d.exponent ≠ 0 := zpow_ne_zero _ (by norm_num)
  rw [toRat, mul_eq_zero, or_iff_left hten, Nat.cast_eq_zero]

/-- Decimals that end at the same place are ordered as their significands. -/
theorem toRat_lt_toRat_iff {a b : Nat} {place : Int} :
    toRat ⟨a, place⟩ < toRat ⟨b, place⟩ ↔ a < b := by
  rw [toRat, toRat, mul_lt_mul_iff_left₀ (by positivity), Nat.cast_lt]

/-- Zeros at the end of a decimal may be moved into its exponent. -/
theorem toRat_mul_pow (significand zeros : Nat) (exponent : Int) :
    toRat ⟨significand * 10 ^ zeros, exponent⟩ = toRat ⟨significand, exponent + zeros⟩ := by
  rw [toRat, toRat, zpow_add₀ (by norm_num), zpow_natCast]
  push_cast
  ring

end Decimal

namespace Binary64

/-- What a decimal is read as is what its rational number is rounded to. -/
theorem isRounded_ofDecimal (d : Decimal) :
    (ofDecimal false d.significand d.exponent).IsRounded d.toRat := by
  obtain ⟨num, den, hden, hunits, hread⟩ := Magnitude.exists_quotient_eq_units d
  have hone : (unitsPerOne : ℚ) ≠ 0 := Nat.cast_ne_zero.mpr unitsPerOne_pos.ne'
  have hround : (round false num den).IsRounded (num / den / unitsPerOne) := isRounded_round hden
  rwa [← hread, hunits, d.units_eq, mul_div_cancel_right₀ _ hone] at hround

/-- Decimals that are the same number are read as the same number. -/
theorem ofDecimal_congr {d e : Decimal} (h : d.toRat = e.toRat) :
    ofDecimal false d.significand d.exponent = ofDecimal false e.significand e.exponent := by
  obtain ⟨num, den, hden, hunits, hread⟩ := Magnitude.exists_quotient_eq_units d
  obtain ⟨num', den', hden', hunits', hread'⟩ := Magnitude.exists_quotient_eq_units e
  rw [d.units_eq, h, ← e.units_eq, ← hunits'] at hunits
  rw [hread, hread', round_eq_of_div_eq false hden hden' hunits]

/-- A number to which something is rounded is a positive magnitude if it lies neither below that nor
above it. -/
theorem IsRounded.eq_finite {x : Binary64} {q : ℚ} {m : Magnitude} (hx : x.IsRounded q)
    (hbelow : x.lt (.finite false m) = false) (habove : (finite false m).lt x = false) :
    x = .finite false m := by
  by_cases hq : q < 2 ^ 1024 - 2 ^ 970
  · obtain ⟨n, rfl, -⟩ := hx.exists_nearest hq
    have hle : ¬ (n.units : Int) < m.units := of_decide_eq_false hbelow
    have hge : ¬ (m.units : Int) < n.units := of_decide_eq_false habove
    rw [Magnitude.eq_of_units_eq (show n.units = m.units by omega)]
  · rw [hx.infinite_iff.mpr (not_lt.mp hq)] at habove
    cases habove

end Binary64

namespace Magnitude

variable {m : Magnitude}

/-- A decimal that reads back is rounded to the magnitude. -/
theorem isRounded_of_readsFrom {d : Decimal} (h : m.readsFrom d = true) :
    (Binary64.finite false m).IsRounded d.toRat := by
  rw [← of_decide_eq_true h]
  exact Binary64.isRounded_ofDecimal d

/-- Whether a decimal reads back depends on its rational number only. -/
theorem readsFrom_congr {d e : Decimal} (h : d.toRat = e.toRat) :
    m.readsFrom d = m.readsFrom e := by
  rw [readsFrom, readsFrom, Binary64.ofDecimal_congr h]

/-- A decimal between two that read back reads back. -/
theorem readsFrom_of_between {low d high : Decimal} (hlow : m.readsFrom low = true)
    (hhigh : m.readsFrom high = true) (hle : low.toRat ≤ d.toRat) (hge : d.toRat ≤ high.toRat) :
    m.readsFrom d = true := by
  rcases hle.eq_or_lt with heq | hlt
  · rwa [readsFrom_congr heq] at hlow
  rcases hge.eq_or_lt with heq | hgt
  · rwa [← readsFrom_congr heq] at hhigh
  have hd := Binary64.isRounded_ofDecimal d
  exact decide_eq_true (hd.eq_finite ((isRounded_of_readsFrom hlow).lt_eq_false hd hlt)
    (hd.lt_eq_false (isRounded_of_readsFrom hhigh) hgt))

/-- All digits of a magnitude make the rational number that it is. -/
theorem toRat_exactDecimal (m : Magnitude) : m.exactDecimal.toRat = m.toRat false := by
  have hplaces : ∀ places : Nat, unitsPerOne = 2 ^ places →
      Decimal.toRat ⟨m.units * 5 ^ places, -places⟩ = m.toRat false := by
    intro places hplaces
    have hten : (10 : ℚ) ^ places = 2 ^ places * 5 ^ places := by
      rw [← mul_pow]
      norm_num
    rw [Decimal.toRat, toRat_false, hplaces, zpow_neg, zpow_natCast, hten]
    push_cast
    field_simp
  exact hplaces 1074 unitsPerOne.eq_1

/-- Only zero is the rational number zero. -/
theorem toRat_eq_zero_iff (m : Magnitude) : m.toRat false = 0 ↔ m.significand = 0 := by
  have hone : (unitsPerOne : ℚ) ≠ 0 := Nat.cast_ne_zero.mpr unitsPerOne_pos.ne'
  rw [toRat_false, div_eq_zero_iff, or_iff_left hone, Nat.cast_eq_zero, units_eq_zero_iff]

/-! ## Neighbours -/

/-- How often a power of ten fits into a magnitude. -/
def digitsAt (m : Magnitude) (place : Int) : Nat :=
  (m.quotientAt place).1 / (m.quotientAt place).2

/-- A magnitude in units of `10 ^ place` is its whole part and a rest. -/
theorem toRat_eq_digitsAt_add (m : Magnitude) (place : Int) :
    m.toRat false = (m.digitsAt place +
      ((m.quotientAt place).1 % (m.quotientAt place).2 : Nat) / (m.quotientAt place).2) *
        10 ^ place := by
  obtain ⟨hpos, hquotient⟩ := m.quotientAt_spec place
  have hpos' : ((m.quotientAt place).2 : ℚ) ≠ 0 := Nat.cast_ne_zero.mpr hpos.ne'
  have hten : (10 : ℚ) ^ place ≠ 0 := zpow_ne_zero _ (by norm_num)
  have hsplit : ((m.quotientAt place).1 : ℚ) = (m.quotientAt place).2 * m.digitsAt place +
      ((m.quotientAt place).1 % (m.quotientAt place).2 : Nat) := by
    exact_mod_cast (Nat.div_add_mod _ _).symm
  have hvalue : m.toRat false = (m.quotientAt place).1 / (m.quotientAt place).2 * 10 ^ place := by
    rw [hquotient, toRat_false, ← div_div, div_mul_cancel₀ _ hten]
  rw [hvalue]
  nth_rewrite 1 [hsplit]
  rw [add_div, mul_div_cancel_left₀ _ hpos']

/-- A magnitude lies between its neighbours that end at a place, and does not reach the upper
one. -/
theorem digitsAt_spec (m : Magnitude) (place : Int) :
    Decimal.toRat ⟨m.digitsAt place, place⟩ ≤ m.toRat false ∧
      m.toRat false < Decimal.toRat ⟨m.digitsAt place + 1, place⟩ := by
  have hpos : 0 < (m.quotientAt place).2 := (m.quotientAt_spec place).1
  have hpos' : (0 : ℚ) < (m.quotientAt place).2 := Nat.cast_pos.mpr hpos
  have hten : (0 : ℚ) < 10 ^ place := by positivity
  have hrest : (((m.quotientAt place).1 % (m.quotientAt place).2 : Nat) : ℚ) /
      (m.quotientAt place).2 < 1 := by
    rw [div_lt_one hpos']
    exact Nat.cast_lt.mpr (Nat.mod_lt _ hpos)
  have hrest' : (0 : ℚ) ≤ ((m.quotientAt place).1 % (m.quotientAt place).2 : Nat) /
      (m.quotientAt place).2 := by positivity
  rw [m.toRat_eq_digitsAt_add place, Decimal.toRat, Decimal.toRat, Nat.cast_add, Nat.cast_one]
  constructor
  · exact mul_le_mul_of_nonneg_right (by linarith) hten.le
  · exact mul_lt_mul_of_pos_right (by linarith) hten

/-- A magnitude has only one neighbour below it that ends at a place. -/
theorem digitsAt_eq {k : Nat} {place : Int} (hbelow : Decimal.toRat ⟨k, place⟩ ≤ m.toRat false)
    (habove : m.toRat false < Decimal.toRat ⟨k + 1, place⟩) : m.digitsAt place = k := by
  obtain ⟨hbelow', habove'⟩ := m.digitsAt_spec place
  have hlt := Decimal.toRat_lt_toRat_iff.mp (hbelow'.trans_lt habove)
  have hgt := Decimal.toRat_lt_toRat_iff.mp (hbelow.trans_lt habove')
  omega

/-- If a decimal reads back, then one of the two neighbours that end at its place does. -/
theorem exists_decimalAt?_of_readsFrom (tie : TieRule) {k : Nat} {place : Int}
    (h : m.readsFrom ⟨k, place⟩ = true) : ∃ d, m.decimalAt? tie place = some d := by
  obtain ⟨hbelow, habove⟩ := m.digitsAt_spec place
  rw [← toRat_exactDecimal] at hbelow habove
  have hexact := m.readsFrom_exactDecimal
  have hmono : ∀ a b : Nat, a ≤ b → Decimal.toRat ⟨a, place⟩ ≤ Decimal.toRat ⟨b, place⟩ :=
    fun a b hle => not_lt.mp (Decimal.toRat_lt_toRat_iff.not.mpr (Nat.not_lt.mpr hle))
  rcases m.decimalAt?_cases tie place with hcase | hcase | ⟨-, hfalse, hfalse'⟩
  · exact ⟨_, hcase⟩
  · exact ⟨_, hcase⟩
  · rcases Nat.lt_or_ge (m.digitsAt place) k with hlt | hge
    · have hread := readsFrom_of_between hexact h habove.le (hmono _ _ hlt)
      rw [digitsAt] at hread
      rw [hread] at hfalse'
      cases hfalse'
    · have hread := readsFrom_of_between h hexact (hmono _ _ hge) hbelow
      rw [digitsAt] at hread
      rw [hread] at hfalse
      cases hfalse

/-- The decimal at a place ends there. -/
theorem exponent_of_decimalAt? {tie : TieRule} {place : Int} {d : Decimal}
    (h : m.decimalAt? tie place = some d) : d.exponent = place := by
  rcases m.decimalAt?_cases tie place with hcase | hcase | ⟨hcase, -⟩
  all_goals rw [h] at hcase
  · rw [Option.some.inj hcase]
  · rw [Option.some.inj hcase]
  · cases hcase

/-- The shortest decimal is the one at the highest place, up to that of the first digit, where any
decimal reads back. -/
theorem shortest_spec (tie : TieRule) (hm : m.significand ≠ 0) :
    m.decimalAt? tie (m.shortest tie).exponent = some (m.shortest tie) ∧
      m.leadingPlace - 16 ≤ (m.shortest tie).exponent ∧
      (m.shortest tie).exponent ≤ m.leadingPlace ∧
      ∀ k place, place ≤ m.leadingPlace → m.readsFrom ⟨k, place⟩ = true →
        place ≤ (m.shortest tie).exponent := by
  have hplace : ∀ place, m.leadingPlace - 16 ≤ place → place ≤ m.leadingPlace →
      (∃ d, m.decimalAt? tie place = some d) → place ≤ (m.shortest tie).exponent ∧
        (m.shortest tie).exponent ≤ m.leadingPlace ∧
        m.decimalAt? tie (m.shortest tie).exponent = some (m.shortest tie) := by
    intro place hlow hhigh hsome
    obtain ⟨first, hfirst, hfirstHigh, hdecimal⟩ := exists_place_of_shortest tie hlow hhigh hsome
    rw [exponent_of_decimalAt? hdecimal]
    exact ⟨hfirst, hfirstHigh, hdecimal⟩
  obtain ⟨hlow, hhigh, hdecimal⟩ := hplace _ (Int.le_refl _) (by omega)
    (exists_decimalAt? tie (step_lt_of_place hm (.inl rfl)))
  refine ⟨hdecimal, hlow, hhigh, fun k place hle hread => ?_⟩
  rcases Int.le_total place (m.leadingPlace - 16) with hbehind | hwithin
  · exact Int.le_trans hbehind hlow
  · exact (hplace place hwithin hle (exists_decimalAt?_of_readsFrom tie hread)).1

/-! ## Ties -/

/-- A magnitude is midway between two neighbouring decimals that both read back as it, and the lower
one is the even one. -/
structure IsMidway (m : Magnitude) (n : Nat) (place : Int) : Prop where
  even : n % 2 = 0
  toRat_eq : m.toRat false = (n + 1 / 2) * 10 ^ place
  below : m.readsFrom ⟨n, place⟩ = true
  above : m.readsFrom ⟨n + 1, place⟩ = true

/-- A magnitude is midway between two decimals that read back, and no decimal that ends at a higher
place does. -/
def IsTied (m : Magnitude) : Prop :=
  ∃ n place, m.IsMidway n place ∧
    ∀ k higher, place < higher → m.readsFrom ⟨k, higher⟩ = false

/-- A magnitude lies midway between its neighbours if the rest is half of the denominator. -/
theorem twice_rest_eq_iff (m : Magnitude) (place : Int) :
    2 * ((m.quotientAt place).1 % (m.quotientAt place).2) = (m.quotientAt place).2 ↔
      m.toRat false = (m.digitsAt place + 1 / 2) * 10 ^ place := by
  have hpos : ((m.quotientAt place).2 : ℚ) ≠ 0 :=
    Nat.cast_ne_zero.mpr (m.quotientAt_spec place).1.ne'
  have hten : (10 : ℚ) ^ place ≠ 0 := zpow_ne_zero _ (by norm_num)
  rw [m.toRat_eq_digitsAt_add place, mul_left_inj' hten, add_right_inj,
    div_eq_div_iff hpos two_ne_zero, one_mul, mul_comm]
  exact_mod_cast Iff.rfl

/-- What lies midway between two neighbouring decimals has these as its neighbours. -/
theorem IsMidway.digitsAt_eq {n : Nat} {place : Int} (h : m.IsMidway n place) :
    m.digitsAt place = n := by
  have hten : (0 : ℚ) < 10 ^ place := by positivity
  apply Magnitude.digitsAt_eq
  · rw [Decimal.toRat, h.toRat_eq]
    exact mul_le_mul_of_nonneg_right (by linarith) hten.le
  · rw [Decimal.toRat, h.toRat_eq, Nat.cast_add, Nat.cast_one]
    exact mul_lt_mul_of_pos_right (by linarith) hten

/-- Of two decimals between which a magnitude lies midway one tie rule chooses the upper and the
other one the lower. -/
theorem IsMidway.decimalAt?_eq {n : Nat} {place : Int} (h : m.IsMidway n place) :
    m.decimalAt? .away place = some ⟨n + 1, place⟩ ∧
      m.decimalAt? .even place = some ⟨n, place⟩ := by
  have hrest := (m.twice_rest_eq_iff place).mpr (by rw [h.digitsAt_eq, h.toRat_eq])
  have hdigits := h.digitsAt_eq
  rw [digitsAt] at hdigits
  have heven := h.even
  simp only [decimalAt?, hdigits, h.below, h.above, hrest, Nat.lt_irrefl, if_false, heven, if_true,
    and_self]

/-- The tie rules choose different decimals only midway between two. -/
theorem exists_isMidway_of_ne {place : Int}
    (h : m.decimalAt? .away place ≠ m.decimalAt? .even place) : ∃ n, m.IsMidway n place := by
  have hdigits : (m.quotientAt place).1 / (m.quotientAt place).2 = m.digitsAt place := rfl
  simp only [decimalAt?, hdigits] at h
  split at h
  · next hbelow habove =>
    -- the rule is asked for only if neither neighbour is nearer
    split at h
    · exact absurd rfl h
    · split at h
      · exact absurd rfl h
      · next hnotBelow hnotAbove =>
        split at h
        · next heven =>
          have hhalf := (m.twice_rest_eq_iff place).mp (by omega)
          exact ⟨m.digitsAt place, heven, hhalf, hbelow, habove⟩
        · exact absurd rfl h
  all_goals exact absurd rfl h

/-- A tie is above zero. -/
theorem IsMidway.significand_ne_zero {n : Nat} {place : Int} (h : m.IsMidway n place) :
    m.significand ≠ 0 := by
  intro hzero
  have hpos : (0 : ℚ) < (n + 1 / 2) * 10 ^ place := by positivity
  rw [← h.toRat_eq, m.toRat_eq_zero_iff.mpr hzero] at hpos
  exact lt_irrefl _ hpos

/-- A magnitude has its first digit at its leading place. -/
theorem leadingPlace_bounds (hm : m.significand ≠ 0) :
    10 ^ m.leadingPlace ≤ m.toRat false ∧ m.toRat false < 10 ^ (m.leadingPlace + 1) := by
  obtain ⟨hreach, hbeyond, -⟩ := leadingPlace_spec hm
  have hone : (0 : ℚ) < unitsPerOne := Nat.cast_pos.mpr unitsPerOne_pos
  rw [toRat_false, le_div_iff₀ hone, div_lt_iff₀ hone, mul_comm, mul_comm _ (unitsPerOne : ℚ),
    ← not_le, ← reaches_iff_le, ← reaches_iff_le, hreach, hbeyond]
  decide

namespace IsMidway

variable {n : Nat} {place : Int}

/-- The lower one of the two decimals is not zero, which reads back as zero only. So the magnitude
reaches their place. -/
theorem place_le (h : m.IsMidway n place) : place ≤ m.leadingPlace := by
  have hm := h.significand_ne_zero
  have hn : (1 : ℚ) ≤ n := Nat.one_le_cast.mpr (Nat.pos_of_ne_zero
    (significand_ne_zero_of_ofDecimal hm (of_decide_eq_true h.below)))
  have hreach : (10 : ℚ) ^ place ≤ m.toRat false := by
    rw [h.toRat_eq]
    exact le_mul_of_one_le_left (by positivity) (by linarith)
  have hlt := hreach.trans_lt (leadingPlace_bounds hm).2
  rw [zpow_lt_zpow_iff_right₀ (by norm_num)] at hlt
  omega

/-- The size of the magnitude in steps between the two decimals. -/
theorem units_eq (h : m.IsMidway n place) :
    (m.units : ℚ) = (n + 1 / 2) * (10 ^ place * unitsPerOne) := by
  have hone : (unitsPerOne : ℚ) ≠ 0 := Nat.cast_ne_zero.mpr unitsPerOne_pos.ne'
  rw [← mul_assoc, ← h.toRat_eq, toRat_false, div_mul_cancel₀ _ hone]

/-- The step from one of the two decimals to the other is not larger than the last digit of the
magnitude. -/
theorem step_le (h : m.IsMidway n place) : (10 : ℚ) ^ place * unitsPerOne ≤ 2 ^ m.exponent := by
  have hhalf := abs_sub_le_of_ofDecimal (of_decide_eq_true h.below)
  rw [h.units_eq, Decimal.units] at hhalf
  have hle := (abs_le.mp hhalf).2
  linarith

/-- A magnitude has only binary places, so the decimal that ends with the five in the middle has as
many factors of five as it has places. -/
theorem pow_five_dvd {places : Nat} (h : m.IsMidway n (-places)) : 5 ^ places ∣ 2 * n + 1 := by
  obtain ⟨bits, -, hbits⟩ := exists_unitsPerOne_eq
  have hten : (10 : ℚ) ^ places ≠ 0 := pow_ne_zero _ (by norm_num)
  have hunits : 2 * m.units * 10 ^ places = (2 * n + 1) * 2 ^ bits := by
    have hcast : (2 * m.units * 10 ^ places : ℚ) = (2 * n + 1) * 2 ^ bits := by
      rw [h.units_eq, hbits, zpow_neg, zpow_natCast]
      push_cast
      field_simp
    exact_mod_cast hcast
  have hdvd : 5 ^ places ∣ (2 * n + 1) * 2 ^ bits := by
    rw [← hunits]
    exact Nat.dvd_mul_left_of_dvd (pow_dvd_pow_of_dvd (by decide) places) _
  exact (Nat.Coprime.pow places bits (by decide)).dvd_of_dvd_mul_right hdvd

/-- The two decimals have two digits or more. Where a magnitude has all its binary digits, decimals
with one digit lie too far apart; and where it may have fewer, it has more decimal places than one
digit leaves. -/
theorem place_ne_leadingPlace (h : m.IsMidway n place) : place ≠ m.leadingPlace := by
  rintro rfl
  have hten : (0 : ℚ) < 10 ^ m.leadingPlace := by positivity
  have hn : (n : ℚ) + 1 / 2 < 10 := by
    have hbeyond := (leadingPlace_bounds h.significand_ne_zero).2
    rw [h.toRat_eq, zpow_add_one₀ (by norm_num), mul_comm (10 ^ _ : ℚ) 10] at hbeyond
    exact lt_of_mul_lt_mul_right hbeyond hten.le
  have hone : (10 : ℚ) < unitsPerOne := by
    obtain ⟨bits, hcount, hbits⟩ := exists_unitsPerOne_eq
    have hpow : 2 ^ 4 ≤ 2 ^ bits := Nat.pow_le_pow_right (by decide) (by omega)
    rw [← hbits] at hpow
    exact_mod_cast Nat.lt_of_lt_of_le (by decide) hpow
  have hstep := h.step_le
  have hunits := h.units_eq
  rcases m.canonical.2.2 with hleast | hnormal
  · rw [hleast, pow_zero] at hstep
    obtain ⟨places, hplaces⟩ : ∃ places : Nat, m.leadingPlace = -(places + 2 : Nat) := by
      have hlt : m.leadingPlace < -1 := by
        by_contra hge
        have htenth : (10 : ℚ) ^ (-1 : Int) ≤ 10 ^ m.leadingPlace :=
          zpow_le_zpow_right₀ (by norm_num) (by omega)
        rw [zpow_neg_one] at htenth
        nlinarith
      exact ⟨(-2 - m.leadingPlace).toNat, by omega⟩
    rw [hplaces] at h
    have hdvd : 5 ^ 2 ∣ 2 * n + 1 :=
      (Nat.pow_dvd_pow 5 (Nat.le_add_left 2 places)).trans h.pow_five_dvd
    have hn' : n < 10 := by
      have hlt : (n : ℚ) < (10 : Nat) := by
        push_cast
        linarith
      exact_mod_cast hlt
    omega
  · have hfull : (2 ^ 52 * 2 ^ m.exponent : ℚ) ≤ m.units := by
      rw [units]
      exact_mod_cast Nat.mul_le_mul_right _ hnormal
    have hsize : (2 ^ 52 : ℚ) * (10 ^ m.leadingPlace * unitsPerOne) ≤
        (n + 1 / 2) * (10 ^ m.leadingPlace * unitsPerOne) := by
      rw [← hunits]
      linarith
    have hle := le_of_mul_le_mul_right hsize (mul_pos hten (by linarith))
    linarith

end IsMidway

/-- The exponents of the shortest decimals are the same for both tie rules. -/
theorem exponent_shortest (tie tie' : TieRule) (hm : m.significand ≠ 0) :
    (m.shortest tie).exponent = (m.shortest tie').exponent := by
  have hle : ∀ tie tie' : TieRule, (m.shortest tie).exponent ≤ (m.shortest tie').exponent := by
    intro tie tie'
    obtain ⟨-, -, hhigh, -⟩ := shortest_spec tie hm
    obtain ⟨-, -, -, hmax⟩ := shortest_spec tie' hm
    exact hmax (m.shortest tie).significand _ hhigh (m.readsFrom_shortest tie)
  exact Int.le_antisymm (hle tie tie') (hle tie' tie)

/-- The shortest decimals of a tied magnitude are the two between which it lies midway. -/
theorem shortest_of_isMidway {n : Nat} {place : Int} (h : m.IsMidway n place)
    (hnone : ∀ k higher, place < higher → m.readsFrom ⟨k, higher⟩ = false) :
    m.shortest .away = ⟨n + 1, place⟩ ∧ m.shortest .even = ⟨n, place⟩ := by
  have hm := h.significand_ne_zero
  have hexponent : ∀ tie : TieRule, (m.shortest tie).exponent = place := by
    intro tie
    obtain ⟨-, -, -, hmax⟩ := shortest_spec tie hm
    refine Int.le_antisymm (Int.not_lt.mp fun hlt => ?_) (hmax n place h.place_le h.below)
    have hread := m.readsFrom_shortest tie
    rw [hnone _ _ hlt] at hread
    cases hread
  obtain ⟨haway, heven⟩ := h.decimalAt?_eq
  constructor
  · obtain ⟨hsome, -⟩ := shortest_spec .away hm
    rw [hexponent, haway] at hsome
    exact (Option.some.inj hsome).symm
  · obtain ⟨hsome, -⟩ := shortest_spec .even hm
    rw [hexponent, heven] at hsome
    exact (Option.some.inj hsome).symm

/-- A decimal that reads back does not end behind the last place of the shortest decimal, if that
one does not end with the first digit. -/
theorem le_exponent_shortest (tie : TieRule) (hm : m.significand ≠ 0)
    (hplace : (m.shortest tie).exponent ≠ m.leadingPlace) {k : Nat} {place : Int}
    (h : m.readsFrom ⟨k, place⟩ = true) : place ≤ (m.shortest tie).exponent := by
  obtain ⟨-, -, hhigh, hmax⟩ := shortest_spec tie hm
  by_cases hle : place ≤ m.leadingPlace
  · exact hmax k place hle h
  · -- what ends before the first digit may be written with zeros up to it
    obtain ⟨zeros, hzeros⟩ : ∃ zeros : Nat, place = m.leadingPlace + zeros :=
      ⟨(place - m.leadingPlace).toNat, by omega⟩
    rw [hzeros, ← readsFrom_congr (Decimal.toRat_mul_pow k zeros m.leadingPlace)] at h
    exact absurd (Int.le_antisymm hhigh (hmax _ _ (Int.le_refl _) h)) hplace

/-- A magnitude for which the tie rules choose different shortest decimals is tied. -/
theorem isTied_of_ne (hm : m.significand ≠ 0) (h : m.shortest .away ≠ m.shortest .even) :
    m.IsTied := by
  obtain ⟨haway, -⟩ := shortest_spec .away hm
  obtain ⟨heven, -⟩ := shortest_spec .even hm
  rw [exponent_shortest .even .away hm] at heven
  obtain ⟨n, hmidway⟩ : ∃ n, m.IsMidway n (m.shortest .away).exponent := by
    apply exists_isMidway_of_ne
    rw [haway, heven]
    exact fun hsame => h (Option.some.inj hsame)
  refine ⟨n, _, hmidway, fun k higher hlt => Bool.eq_false_iff.mpr fun hread => ?_⟩
  exact absurd (le_exponent_shortest .away hm hmidway.place_ne_leadingPlace hread)
    (Int.not_le.mpr hlt)

/-- The shortest decimal of zero is zero. -/
theorem toRat_shortest_zero (tie : TieRule) : (zero.shortest tie).toRat = 0 := by
  rw [Decimal.toRat_eq_zero_iff]
  cases tie <;> decide +kernel

/-- **The tie rules differ exactly on ties.** The two rules choose the same number unless a
magnitude is tied. -/
theorem toRat_shortest_eq_iff (m : Magnitude) :
    (m.shortest .away).toRat = (m.shortest .even).toRat ↔ ¬ m.IsTied := by
  constructor
  · rintro heq ⟨n, place, hmidway, hnone⟩
    obtain ⟨haway, heven⟩ := shortest_of_isMidway hmidway hnone
    have hten : (10 : ℚ) ^ place ≠ 0 := zpow_ne_zero _ (by norm_num)
    rw [haway, heven, Decimal.toRat, Decimal.toRat, mul_left_inj' hten, Nat.cast_inj] at heq
    exact Nat.succ_ne_self n heq
  · intro htied
    by_cases hm : m.significand = 0
    · rw [eq_zero hm, toRat_shortest_zero, toRat_shortest_zero]
    · by_contra hne
      exact htied (isTied_of_ne hm fun hsame => hne (congrArg Decimal.toRat hsame))

/-! ## Whole numbers -/

/-- A decimal that is some magnitude reads back as no other one. -/
theorem toRat_eq_of_readsFrom {n : Magnitude} {d : Decimal} (h : m.readsFrom d = true)
    (hd : d.toRat = n.toRat false) : d.toRat = m.toRat false := by
  have hread : n.readsFrom d = true := by
    rw [readsFrom_congr (hd.trans n.toRat_exactDecimal.symm)]
    exact n.readsFrom_exactDecimal
  have hsame := (of_decide_eq_true h).symm.trans (of_decide_eq_true hread)
  injection hsame with _ hsame
  rw [hd, hsame]

/-- Where a magnitude ends at a place, the decimal there is the magnitude. -/
theorem decimalAt?_of_toRat_eq (tie : TieRule) {k : Nat} {place : Int}
    (h : Decimal.toRat ⟨k, place⟩ = m.toRat false) : m.decimalAt? tie place = some ⟨k, place⟩ := by
  have hpos := (m.quotientAt_spec place).1
  have hdigits : m.digitsAt place = k :=
    digitsAt_eq h.le (h ▸ Decimal.toRat_lt_toRat_iff.mpr (Nat.lt_succ_self k))
  have hrest : (m.quotientAt place).1 % (m.quotientAt place).2 = 0 := by
    have hten : (10 : ℚ) ^ place ≠ 0 := zpow_ne_zero _ (by norm_num)
    have hpos' : ((m.quotientAt place).2 : ℚ) ≠ 0 := Nat.cast_ne_zero.mpr hpos.ne'
    have hsplit := m.toRat_eq_digitsAt_add place
    rw [← h, hdigits, Decimal.toRat, mul_left_inj' hten, left_eq_add, div_eq_zero_iff,
      or_iff_left hpos'] at hsplit
    exact_mod_cast hsplit
  have hbelow : m.readsFrom ⟨k, place⟩ = true := by
    rw [readsFrom_congr (h.trans m.toRat_exactDecimal.symm)]
    exact m.readsFrom_exactDecimal
  rw [digitsAt] at hdigits
  simp only [decimalAt?, hdigits, hrest, Nat.mul_zero, hpos, if_true]
  rw [hbelow]
  cases m.readsFrom ⟨k + 1, place⟩ <;> rfl

/-- An even number below 2⁵⁴ is a magnitude. -/
theorem exists_toRat_eq_of_even {k : Nat} (hk : k % 2 = 0) (hlt : k < 2 ^ 54) :
    ∃ n : Magnitude, n.toRat false = k := by
  obtain ⟨places, hcount, hplaces⟩ := exists_unitsPerOne_eq
  have hone : (unitsPerOne : ℚ) ≠ 0 := Nat.cast_ne_zero.mpr unitsPerOne_pos.ne'
  obtain ⟨n, -, hunits⟩ := exists_nearest?_exact (show k / 2 < 2 ^ 53 by omega)
    (show places + 1 ≤ 2045 by omega)
  refine ⟨n, ?_⟩
  have htotal : n.units = k * unitsPerOne := by
    rw [hunits, hplaces, Nat.pow_succ, Nat.mul_comm (2 ^ places), ← Nat.mul_assoc,
      Nat.div_mul_cancel (Nat.dvd_of_mod_eq_zero hk)]
  rw [toRat_false, htotal, Nat.cast_mul, mul_div_cancel_right₀ _ hone]

/-- A decimal that reads back is not larger than a magnitude and half of it. -/
theorem toRat_le_of_readsFrom (hm : m.significand ≠ 0) {d : Decimal} (h : m.readsFrom d = true) :
    d.toRat ≤ 3 / 2 * m.toRat false := by
  have hone : (0 : ℚ) < unitsPerOne := Nat.cast_pos.mpr unitsPerOne_pos
  have hdigit : (2 ^ m.exponent : ℚ) ≤ m.units := by
    rw [units]
    exact_mod_cast Nat.le_mul_of_pos_left _ (Nat.pos_of_ne_zero hm)
  have hhalf := (abs_le.mp (abs_sub_le_of_ofDecimal (of_decide_eq_true h))).1
  have hunits : (m.units : ℚ) = m.toRat false * unitsPerOne := by
    rw [toRat_false, div_mul_cancel₀ _ hone.ne']
  rw [d.units_eq] at hhalf
  refine le_of_mul_le_mul_right ?_ hone
  linarith

/-- The shortest decimal of a whole number below 10¹⁶ is this number: a decimal that ends behind the
ones may end with the number, and one that ends before them is even and not large enough to be
rounded. -/
theorem toRat_shortest_of_whole (tie : TieRule) {w : Nat} (hw : m.toRat false = w) (hpos : 0 < w)
    (hlt : w < 10 ^ 16) : (m.shortest tie).toRat = w := by
  have hm : m.significand ≠ 0 := by
    rw [Ne, ← m.toRat_eq_zero_iff, hw, Nat.cast_eq_zero]
    exact hpos.ne'
  rcases Int.lt_or_le 0 (m.shortest tie).exponent with hbefore | hbehind
  · obtain ⟨zeros, hzeros⟩ : ∃ zeros : Nat, (m.shortest tie).exponent = (zeros + 1 : Nat) :=
      ⟨(m.shortest tie).exponent.toNat - 1, by omega⟩
    have hread := m.readsFrom_shortest tie
    obtain ⟨k, heven, hk⟩ : ∃ k : Nat, k % 2 = 0 ∧ (m.shortest tie).toRat = k := by
      refine ⟨(m.shortest tie).significand * 10 ^ (zeros + 1), ?_, ?_⟩
      · rw [Nat.pow_succ, ← Nat.mul_assoc]
        omega
      · rw [Decimal.toRat, hzeros, zpow_natCast]
        push_cast
        rfl
    have hsmall : k < 2 ^ 54 := by
      have hle := toRat_le_of_readsFrom hm hread
      rw [hk, hw] at hle
      have hle' : 2 * k ≤ 3 * w := by
        have hcast : (2 * k : ℚ) ≤ 3 * w := by linarith
        exact_mod_cast hcast
      omega
    obtain ⟨n, hn⟩ := exists_toRat_eq_of_even heven hsmall
    rw [← hw]
    exact toRat_eq_of_readsFrom hread (hk.trans hn.symm)
  · obtain ⟨places, hplaces⟩ : ∃ places : Nat, (m.shortest tie).exponent + places = 0 :=
      ⟨(m.shortest tie).exponent.natAbs, by omega⟩
    have hexact : Decimal.toRat ⟨w * 10 ^ places, (m.shortest tie).exponent⟩ = m.toRat false := by
      rw [Decimal.toRat_mul_pow, hplaces, hw, Decimal.toRat, zpow_zero, mul_one]
    obtain ⟨hsome, -⟩ := shortest_spec tie hm
    rw [decimalAt?_of_toRat_eq tie hexact] at hsome
    rw [← Option.some.inj hsome, hexact, hw]

end Magnitude

end Calculator
