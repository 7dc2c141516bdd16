import Calculator.Proofs.FiniteArithmetic
import Mathlib.Algebra.Order.Field.Power
import Mathlib.Data.Rat.Cast.Order
import Mathlib.Tactic.FieldSimp
import Mathlib.Tactic.Linarith
import Mathlib.Tactic.NormNum
import Mathlib.Tactic.Positivity
import Mathlib.Tactic.Ring

/-!
# Seventeen digits suffice

A decimal that is near enough to a magnitude reads back as it. With seventeen digits, or with 324
places, decimals lie so close together that one of the two neighbours of a magnitude is near enough.
So the shortest decimal of a magnitude has at most seventeen digits and at most 324 places.
-/

namespace Calculator

/-! ## What is near enough reads back -/

/-- A quotient less than one half away from a whole number is rounded to it. -/
theorem roundHalfEven_eq {num den k : Nat} (habove : 2 * num < den * (2 * k + 1))
    (hbelow : den * (2 * k) < 2 * num + den) : roundHalfEven num den = k := by
  have hden : 0 < den := Nat.pos_of_ne_zero (by rintro rfl; simp at habove)
  obtain ⟨hlow, hhigh⟩ := roundHalfEven_half num hden
  have hle : roundHalfEven num den < k + 1 := by
    refine Nat.lt_of_mul_lt_mul_left (a := 2 * den) ?_
    linarith
  have hge : k < roundHalfEven num den + 1 := by
    refine Nat.lt_of_mul_lt_mul_left (a := 2 * den) ?_
    linarith
  omega

namespace Magnitude

/-- A quotient less than half a last digit away from a magnitude is rounded to it. Below a
significand of 2⁵² the digits lie twice as close. -/
theorem nearest?_of_near {m : Magnitude} {num den : Nat}
    (habove : 2 * num < den * (2 * m.units + 2 ^ m.exponent))
    (hbelow : den * (2 * m.units) < 2 * num + den * 2 ^ m.exponent)
    (hbottom : m.significand = 2 ^ 52 → m.exponent ≠ 0 →
      den * (4 * m.units) < 4 * num + den * 2 ^ m.exponent) :
    nearest? num den = some m := by
  have hden : 0 < den := Nat.pos_of_ne_zero (by rintro rfl; simp at habove)
  obtain ⟨s, e, hs, he, hnormal⟩ := m
  simp only [units] at habove hbelow hbottom
  have hpos : 0 < 2 ^ e := Nat.two_pow_pos e
  by_cases hbinade : e = 0 ∨ den * (2 ^ 52 * 2 ^ e) ≤ num
  · -- the quotient has the exponent of the magnitude
    have hexponent : exponentFor (num / den) = e := by
      apply exponentFor_eq
      · refine hbinade.imp_right fun hle => ?_
        rwa [Nat.le_div_iff_mul_le hden, Nat.mul_comm]
      · rw [Nat.div_lt_iff_lt_mul hden]
        have hdigits : 2 * s + 1 ≤ 2 ^ 54 := by omega
        nlinarith [Nat.mul_le_mul_left (den * 2 ^ e) hdigits]
    have hround : roundHalfEven num (den * 2 ^ e) = s := by
      apply roundHalfEven_eq <;> linarith
    rw [nearest?, hexponent, hround, if_neg (Nat.ne_of_lt hs)]
    exact dif_pos ⟨hs, he, hnormal⟩
  · -- the quotient lies below the least significand with 53 digits, and so it is rounded up to it
    obtain ⟨hne, hlt⟩ := not_or.mp hbinade
    rw [Nat.not_le] at hlt
    obtain ⟨f, rfl⟩ : ∃ f, e = f + 1 := ⟨e - 1, by omega⟩
    rw [Nat.pow_succ 2 f] at habove hbelow hbottom hlt
    have hstep : 0 < den * 2 ^ f := Nat.mul_pos hden (Nat.two_pow_pos f)
    obtain rfl : s = 2 ^ 52 := by
      have hle : s < 2 ^ 52 + 1 := by
        refine Nat.lt_of_mul_lt_mul_left (a := 2 * (den * 2 ^ f)) ?_
        linarith
      omega
    have hnear := hbottom rfl hne
    have hexponent : exponentFor (num / den) = f := by
      apply exponentFor_eq
      · right
        rw [Nat.le_div_iff_mul_le hden]
        linarith
      · rw [Nat.div_lt_iff_lt_mul hden]
        linarith
    have hround : roundHalfEven num (den * 2 ^ f) = 2 ^ 53 := by
      apply roundHalfEven_eq <;> linarith
    rw [nearest?, hexponent, hround, if_pos rfl]
    exact dif_pos ⟨hs, he, hnormal⟩

/-- A magnitude has no more than 53 binary digits at its exponent. -/
theorem units_le (m : Magnitude) : (m.units : ℚ) ≤ (2 ^ 53 - 1) * 2 ^ m.exponent := by
  have hle : m.significand + 1 ≤ 2 ^ 53 := m.canonical.1
  have hle' : (m.significand : ℚ) + 1 ≤ 2 ^ 53 := by exact_mod_cast hle
  rw [units, Nat.cast_mul, Nat.cast_pow, Nat.cast_ofNat]
  exact mul_le_mul_of_nonneg_right (by linarith) (by positivity)

/-- A magnitude that is not zero has no more than 2098 binary digits. -/
theorem log2_units_lt {m : Magnitude} (hne : m.units ≠ 0) : m.units.log2 < 2098 := by
  obtain ⟨hlt, hexponent, -⟩ := m.canonical
  have hunits : m.units < 2 ^ (53 + m.exponent) := by
    rw [Nat.pow_add]
    exact Nat.mul_lt_mul_of_pos_right hlt (Nat.two_pow_pos _)
  have hlog := (Nat.log2_lt hne).mpr hunits
  omega

/-- A quotient is rounded to a magnitude if it is away from it by less than one part in 2⁵⁴, or by
less than half a unit. -/
theorem nearest?_of_abs_sub_lt {m : Magnitude} {num den : Nat} (hden : 0 < den)
    (h : |(num : ℚ) / den - m.units| < max (m.units : ℚ) (2 ^ 53) / 2 ^ 54) :
    nearest? num den = some m := by
  have hden' : (0 : ℚ) < den := Nat.cast_pos.mpr hden
  have hone : (1 : ℚ) ≤ 2 ^ m.exponent := one_le_pow₀ (by norm_num)
  have hdigit : max (m.units : ℚ) (2 ^ 53) ≤ 2 ^ 53 * 2 ^ m.exponent :=
    max_le (by linarith [m.units_le]) (by linarith)
  -- where 53 digits start, one part in 2⁵⁴ is a quarter of a last digit
  have hquarter : m.significand = 2 ^ 52 → m.exponent ≠ 0 →
      max (m.units : ℚ) (2 ^ 53) ≤ 2 ^ 52 * 2 ^ m.exponent := by
    intro hbottom hne
    have htwo : (2 : ℚ) ≤ 2 ^ m.exponent := le_self_pow₀ (by norm_num) hne
    have hunits : (m.units : ℚ) = 2 ^ 52 * 2 ^ m.exponent := by
      rw [units, hbottom]
      norm_num
    exact max_le hunits.le (by linarith)
  generalize max (m.units : ℚ) (2 ^ 53) = size at h hdigit hquarter
  obtain ⟨hbelow, habove⟩ := abs_lt.mp h
  refine nearest?_of_near ?_ ?_ fun hbottom hne => ?_
  · have hlt : (num : ℚ) / den < m.units + 2 ^ m.exponent / 2 := by linarith
    rw [div_lt_iff₀ hden'] at hlt
    have hlt' : (2 * num : ℚ) < den * (2 * m.units + 2 ^ m.exponent) := by linarith
    exact_mod_cast hlt'
  · have hlt : m.units - 2 ^ m.exponent / 2 < (num : ℚ) / den := by linarith
    rw [lt_div_iff₀ hden'] at hlt
    have hlt' : (den * (2 * m.units) : ℚ) < 2 * num + den * 2 ^ m.exponent := by linarith
    exact_mod_cast hlt'
  · have hlt : m.units - 2 ^ m.exponent / 4 < (num : ℚ) / den := by
      linarith [hquarter hbottom hne]
    rw [lt_div_iff₀ hden'] at hlt
    have hlt' : (den * (4 * m.units) : ℚ) < 4 * num + den * 2 ^ m.exponent := by linarith
    exact_mod_cast hlt'

end Magnitude

/-! ## Decimals -/

/-- A power of ten as a quotient of whole powers. -/
theorem ten_zpow_eq_div (place : Int) :
    (10 : ℚ) ^ place = (10 ^ place.toNat : Nat) / (10 ^ (-place).toNat : Nat) := by
  have hsplit : place = (place.toNat : Int) - (-place).toNat := by omega
  rw [Nat.cast_pow, Nat.cast_pow, Nat.cast_ofNat]
  conv_lhs => rw [hsplit, zpow_sub₀ (by norm_num), zpow_natCast, zpow_natCast]

namespace Decimal

/-- The size of a decimal in units of 2⁻¹⁰⁷⁴. -/
def units (d : Decimal) : ℚ :=
  d.significand * 10 ^ d.exponent * unitsPerOne

end Decimal

namespace Magnitude

/-- A decimal is read as the magnitude nearest to its size. -/
theorem exists_quotient_eq_units (d : Decimal) : ∃ num den : Nat, 0 < den ∧
    (num : ℚ) / den = d.units ∧
    Binary64.ofDecimal false d.significand d.exponent = Binary64.round false num den := by
  have hsplit : d.exponent = (d.exponent.toNat : Int) - (-d.exponent).toNat := by omega
  refine ⟨_, _, Nat.pow_pos (by decide), ?_, Binary64.ofDecimal_eq_round false _ hsplit⟩
  rw [Decimal.units, ten_zpow_eq_div, Nat.cast_mul, Nat.cast_mul]
  ring

/-- A decimal reads back as a magnitude if it is away from it by less than one part in 2⁵⁴, or by
less than half a unit. -/
theorem readsFrom_of_abs_sub_lt {m : Magnitude} {d : Decimal}
    (h : |d.units - m.units| < max (m.units : ℚ) (2 ^ 53) / 2 ^ 54) : m.readsFrom d = true := by
  obtain ⟨num, den, hden, hunits, hread⟩ := exists_quotient_eq_units d
  rw [← hunits] at h
  rw [readsFrom, hread, decide_eq_true_eq]
  unfold Binary64.round
  rw [nearest?_of_abs_sub_lt hden h]

/-- A magnitude in units of `10 ^ place`, as a quotient of whole numbers. -/
theorem quotientAt_eq (m : Magnitude) (place : Int) : m.quotientAt place =
    (m.units * 10 ^ (-place).toNat, unitsPerOne * 10 ^ place.toNat) := by
  cases place with
  | ofNat k =>
    have hneg : (-Int.ofNat k).toNat = 0 := Int.toNat_neg_natCast k
    rw [hneg, Nat.pow_zero, Nat.mul_one]
    rfl
  | negSucc k =>
    rw [Int.toNat_negSucc, Nat.pow_zero, Nat.mul_one]
    rfl

/-- A magnitude in units of `10 ^ place`, as a rational number. -/
theorem quotientAt_spec (m : Magnitude) (place : Int) :
    0 < (m.quotientAt place).2 ∧ ((m.quotientAt place).1 : ℚ) / (m.quotientAt place).2 =
      m.units / (unitsPerOne * 10 ^ place) := by
  have hpos : 0 < unitsPerOne * 10 ^ place.toNat :=
    Nat.mul_pos Binary64.unitsPerOne_pos (Nat.pow_pos (by decide))
  have hten : ((10 ^ (-place).toNat : Nat) : ℚ) ≠ 0 :=
    Nat.cast_ne_zero.mpr (Nat.pow_pos (by decide)).ne'
  rw [quotientAt_eq, ten_zpow_eq_div]
  refine ⟨hpos, ?_⟩
  simp only [Nat.cast_mul]
  generalize (unitsPerOne : ℚ) = one
  field_simp

/-- The decimal at a place is the one below a magnitude or the one above it, if not both of them
fail to read back. -/
theorem decimalAt?_cases (tie : TieRule) (m : Magnitude) (place : Int) :
    let quotient := (m.quotientAt place).1 / (m.quotientAt place).2
    m.decimalAt? tie place = some ⟨quotient, place⟩ ∨
      m.decimalAt? tie place = some ⟨quotient + 1, place⟩ ∨
      m.decimalAt? tie place = none ∧ m.readsFrom ⟨quotient, place⟩ = false ∧
        m.readsFrom ⟨quotient + 1, place⟩ = false := by
  simp only [decimalAt?]
  split
  · split
    · exact .inl rfl
    · split
      · exact .inr (.inl rfl)
      · cases tie with
        | away => exact .inr (.inl rfl)
        | even =>
          simp only
          split
          · exact .inl rfl
          · exact .inr (.inl rfl)
  · exact .inl rfl
  · exact .inr (.inl rfl)
  · next hbelow habove => exact .inr (.inr ⟨rfl, hbelow, habove⟩)

/-- Of the two whole numbers next to a quotient one is at most one half away from it. -/
theorem half_step_le {num den : Nat} (hden : 0 < den) :
    |((num / den : Nat) : ℚ) - num / den| ≤ 1 / 2 ∨
      |((num / den + 1 : Nat) : ℚ) - num / den| ≤ 1 / 2 := by
  have hden' : (0 : ℚ) < den := Nat.cast_pos.mpr hden
  have hlt : ((num % den : Nat) : ℚ) < den := Nat.cast_lt.mpr (Nat.mod_lt num hden)
  have hsplit : (num : ℚ) / den = (num / den : Nat) + (num % den : Nat) / den := by
    have hmod : (num : ℚ) = den * (num / den : Nat) + (num % den : Nat) := by
      exact_mod_cast (Nat.div_add_mod num den).symm
    rw [hmod, add_div, mul_div_cancel_left₀ _ hden'.ne']
  have hrest : (0 : ℚ) ≤ (num % den : Nat) / den := by positivity
  have hone : ((num % den : Nat) : ℚ) / den < 1 := (div_lt_one hden').mpr hlt
  rw [hsplit]
  push_cast
  rcases le_total (((num % den : Nat) : ℚ) / den) (1 / 2) with hle | hge
  · left
    rw [abs_le]
    constructor <;> linarith
  · right
    rw [abs_le]
    constructor <;> linarith

/-- One of the two decimals next to a magnitude reads back, if decimals with their last digit at the
place lie close together there. -/
theorem exists_decimalAt? (tie : TieRule) {m : Magnitude} {place : Int}
    (h : (unitsPerOne : ℚ) * 10 ^ place < max (m.units : ℚ) (2 ^ 53) / 2 ^ 53) :
    ∃ d, m.decimalAt? tie place = some d := by
  obtain ⟨hpos, hquotient⟩ := m.quotientAt_spec place
  have hstep : (0 : ℚ) < unitsPerOne * 10 ^ place :=
    mul_pos (Nat.cast_pos.mpr Binary64.unitsPerOne_pos) (by positivity)
  -- a decimal at half a step or less reads back
  have hnear : ∀ c : Nat, |(c : ℚ) - m.units / (unitsPerOne * 10 ^ place)| ≤ 1 / 2 →
      m.readsFrom ⟨c, place⟩ = true := by
    intro c hc
    apply readsFrom_of_abs_sub_lt
    have hdistance : Decimal.units ⟨c, place⟩ - m.units =
        unitsPerOne * 10 ^ place * (c - m.units / (unitsPerOne * 10 ^ place)) := by
      rw [Decimal.units, mul_sub, mul_div_cancel₀ _ hstep.ne']
      ring
    rw [hdistance, abs_mul, abs_of_pos hstep]
    calc (unitsPerOne : ℚ) * 10 ^ place * |(c : ℚ) - m.units / (unitsPerOne * 10 ^ place)|
        ≤ unitsPerOne * 10 ^ place * (1 / 2) := mul_le_mul_of_nonneg_left hc hstep.le
      _ < max (m.units : ℚ) (2 ^ 53) / 2 ^ 53 * (1 / 2) := by linarith
      _ = max (m.units : ℚ) (2 ^ 53) / 2 ^ 54 := by ring
  rw [← hquotient] at hnear
  rcases m.decimalAt?_cases tie place with hbelow | habove | ⟨-, hbelow, habove⟩
  · exact ⟨_, hbelow⟩
  · exact ⟨_, habove⟩
  · rcases half_step_le hpos with hhalf | hhalf
    · rw [hnear _ hhalf] at hbelow
      cases hbelow
    · rw [hnear _ hhalf] at habove
      cases habove

/-! ## Places -/

/-- A magnitude reaches a place, in whole numbers. -/
theorem reaches_iff_mul_le (m : Magnitude) (place : Int) : m.reaches place = true ↔
    unitsPerOne * 10 ^ place.toNat ≤ m.units * 10 ^ (-place).toNat := by
  rw [reaches, quotientAt_eq]
  exact decide_eq_true_iff

/-- A magnitude reaches a place, in rational numbers. -/
theorem reaches_iff_le (m : Magnitude) (place : Int) :
    m.reaches place = true ↔ (unitsPerOne : ℚ) * 10 ^ place ≤ m.units := by
  obtain ⟨hpos, hquotient⟩ := m.quotientAt_spec place
  have hunit : (0 : ℚ) < unitsPerOne * 10 ^ place :=
    mul_pos (Nat.cast_pos.mpr Binary64.unitsPerOne_pos) (by positivity)
  rw [← one_le_div hunit, ← hquotient, one_le_div (Nat.cast_pos.mpr hpos), Nat.cast_le, reaches]
  exact decide_eq_true_iff

/-- The place of the first digit that is guessed from the number of binary digits. -/
def guessedPlace (log : Nat) : Int :=
  ((log : Int) - 1074) * 30103 / 100000

/-- The first digit is at most one place away from the guessed one. -/
theorem guessedPlace_bounds : ∀ log ∈ List.range 2098,
    unitsPerOne * 10 ^ (guessedPlace log - 1).toNat ≤
      2 ^ log * 10 ^ (-(guessedPlace log - 1)).toNat ∧
    2 ^ (log + 1) * 10 ^ (-(guessedPlace log + 2)).toNat ≤
      unitsPerOne * 10 ^ (guessedPlace log + 2).toNat := by
  decide +kernel

/-- The digits of a magnitude start at its leading place, which lies between the 324th place behind
the point and the 308th before it. -/
theorem leadingPlace_spec {m : Magnitude} (hm : m.significand ≠ 0) :
    m.reaches m.leadingPlace = true ∧ m.reaches (m.leadingPlace + 1) = false ∧
      -324 ≤ m.leadingPlace ∧ m.leadingPlace ≤ 308 := by
  have hne : m.units ≠ 0 := Nat.mul_ne_zero hm (Nat.two_pow_pos _).ne'
  have hlog := log2_units_lt hne
  have hguess : -324 ≤ guessedPlace m.units.log2 ∧ guessedPlace m.units.log2 ≤ 307 := by
    rw [guessedPlace]
    omega
  have hlow : m.reaches (guessedPlace m.units.log2 - 1) = true := by
    rw [reaches_iff_mul_le]
    exact Nat.le_trans (guessedPlace_bounds _ (List.mem_range.mpr hlog)).1
      (Nat.mul_le_mul_right _ (Nat.log2_self_le hne))
  have hhigh : m.reaches (guessedPlace m.units.log2 + 2) = false := by
    rw [← Bool.not_eq_true, reaches_iff_mul_le, Nat.not_le]
    refine Nat.lt_of_lt_of_le ?_ (guessedPlace_bounds _ (List.mem_range.mpr hlog)).2
    exact Nat.mul_lt_mul_of_pos_right Nat.lt_log2_self (Nat.pow_pos (by decide))
  have hunit : m.reaches (-324) = true := by
    rw [reaches_iff_mul_le]
    refine Nat.le_trans ?_ (Nat.le_mul_of_pos_left _ (Nat.pos_of_ne_zero hne))
    decide +kernel
  have hleading : m.leadingPlace =
      if m.reaches (guessedPlace m.units.log2 + 1) then guessedPlace m.units.log2 + 1
      else if m.reaches (guessedPlace m.units.log2) then guessedPlace m.units.log2
      else guessedPlace m.units.log2 - 1 := rfl
  generalize guessedPlace m.units.log2 = guess at *
  rw [hleading]
  split
  · next hreach =>
    refine ⟨hreach, ?_, by omega, by omega⟩
    rwa [Int.add_assoc]
  · next hnot =>
    rw [Bool.not_eq_true] at hnot
    split
    · next hreach => exact ⟨hreach, hnot, by omega, by omega⟩
    · next hnot' =>
      rw [Bool.not_eq_true] at hnot'
      refine ⟨hlow, ?_, ?_, by omega⟩
      · rwa [Int.sub_add_cancel]
      · -- every unit reaches the 324th place
        have hne' : guess ≠ -324 := by
          rintro rfl
          rw [hunit] at hnot'
          cases hnot'
        omega

/-! ## The shortest decimal -/

/-- The first of the places at which a decimal is looked for does not lie behind one where there is
such a decimal. -/
theorem exists_place_of_shortest (tie : TieRule) {m : Magnitude} {place : Int}
    (hlow : m.leadingPlace - 16 ≤ place) (hhigh : place ≤ m.leadingPlace)
    (hplace : ∃ d, m.decimalAt? tie place = some d) :
    ∃ first, place ≤ first ∧ first ≤ m.leadingPlace ∧
      m.decimalAt? tie first = some (m.shortest tie) := by
  obtain ⟨d, hd⟩ := hplace
  let places : List Int := (List.range 17).map fun count : Nat => m.leadingPlace - count
  have hmem : place ∈ places := by
    refine List.mem_map.mpr ⟨(m.leadingPlace - place).toNat, List.mem_range.mpr ?_, ?_⟩ <;> omega
  have hsorted : places.Pairwise (· > ·) := by
    refine List.pairwise_map.mpr (List.pairwise_lt_range.imp fun hlt => ?_)
    omega
  cases hfind : places.findSome? (m.decimalAt? tie) with
  | none =>
    have hnone := List.findSome?_eq_none_iff.mp hfind place hmem
    rw [hd] at hnone
    cases hnone
  | some found =>
    obtain ⟨before, first, behind, hsplit, hfirst, hbefore⟩ := List.findSome?_eq_some_iff.mp hfind
    have hshortest : m.shortest tie = found := by
      rw [shortest]
      exact congrArg (Option.getD · _) hfind
    refine ⟨first, ?_, ?_, hshortest ▸ hfirst⟩
    · rw [hsplit] at hmem hsorted
      rcases List.mem_append.mp hmem with hmem | hmem
      · have hnone := hbefore place hmem
        rw [hd] at hnone
        cases hnone
      · have hlater := (List.pairwise_append.mp hsorted).2.1
        rcases List.mem_cons.mp hmem with rfl | hmem
        · exact Int.le_refl _
        · exact Int.le_of_lt ((List.pairwise_cons.mp hlater).1 place hmem)
    · have hmem' : first ∈ places := hsplit ▸ List.mem_append_right _ List.mem_cons_self
      obtain ⟨count, -, rfl⟩ := List.mem_map.mp hmem'
      omega

/-- At the seventeenth digit and at the 324th place decimals lie close together. -/
theorem step_lt_of_place {m : Magnitude} (hm : m.significand ≠ 0) {place : Int}
    (hplace : place = m.leadingPlace - 16 ∨ place = -324) :
    (unitsPerOne : ℚ) * 10 ^ place < max (m.units : ℚ) (2 ^ 53) / 2 ^ 53 := by
  rcases hplace with rfl | rfl
  · have hreach := (m.reaches_iff_le _).mp (leadingPlace_spec hm).1
    have hpos : (0 : ℚ) < m.units :=
      Nat.cast_pos.mpr (Nat.mul_pos (Nat.pos_of_ne_zero hm) (Nat.two_pow_pos _))
    have hmax : (m.units : ℚ) ≤ max (m.units : ℚ) (2 ^ 53) := le_max_left _ _
    have hsplit : (10 : ℚ) ^ (m.leadingPlace - 16) = 10 ^ m.leadingPlace / 10 ^ (16 : Int) :=
      zpow_sub₀ (by norm_num) _ _
    rw [hsplit]
    generalize max (m.units : ℚ) (2 ^ 53) = size at hmax ⊢
    have hnum : (10 : ℚ) ^ (16 : Int) = 10 ^ 16 := by norm_num
    rw [hnum]
    linarith
  · have hlt : unitsPerOne < 10 ^ (-(-324 : Int)).toNat := by decide +kernel
    have hpos : 0 < 10 ^ (-(-324 : Int)).toNat := Nat.pow_pos (by decide)
    have hone : (10 : Nat) ^ (-324 : Int).toNat = 1 := rfl
    rw [ten_zpow_eq_div, hone, ← mul_div_assoc, Nat.cast_one, mul_one]
    calc (unitsPerOne : ℚ) / (10 ^ (-(-324 : Int)).toNat : Nat)
        < 1 := (div_lt_one (Nat.cast_pos.mpr hpos)).mpr (Nat.cast_lt.mpr hlt)
      _ = 2 ^ 53 / 2 ^ 53 := (div_self (by norm_num)).symm
      _ ≤ max (m.units : ℚ) (2 ^ 53) / 2 ^ 53 :=
        div_le_div_of_nonneg_right (le_max_right _ _) (by norm_num)

/-- At its seventeenth digit, and at earlier ones, a magnitude is less than 10¹⁷. -/
theorem quotientAt_lt {m : Magnitude} (hm : m.significand ≠ 0) {place : Int}
    (hplace : m.leadingPlace - 16 ≤ place) :
    (m.quotientAt place).1 / (m.quotientAt place).2 < 10 ^ 17 := by
  obtain ⟨hpos, hquotient⟩ := m.quotientAt_spec place
  have hunit : (0 : ℚ) < unitsPerOne := Nat.cast_pos.mpr Binary64.unitsPerOne_pos
  have hstep : (0 : ℚ) < unitsPerOne * 10 ^ place := mul_pos hunit (by positivity)
  have hbeyond : (m.units : ℚ) < unitsPerOne * 10 ^ (m.leadingPlace + 1) := by
    rw [← not_le, ← reaches_iff_le, (leadingPlace_spec hm).2.1]
    decide
  have hgrow : (10 : ℚ) ^ (m.leadingPlace + 1) ≤ 10 ^ (place + 17) :=
    zpow_le_zpow_right₀ (by norm_num) (by omega)
  have hsplit : (10 : ℚ) ^ (place + 17) = 10 ^ place * 10 ^ 17 := by
    rw [zpow_add₀ (by norm_num)]
    norm_num
  have hlt : (m.units : ℚ) / (unitsPerOne * 10 ^ place) < 10 ^ 17 := by
    rw [div_lt_iff₀ hstep]
    calc (m.units : ℚ) < unitsPerOne * 10 ^ (m.leadingPlace + 1) := hbeyond
      _ ≤ unitsPerOne * (10 ^ place * 10 ^ 17) :=
        mul_le_mul_of_nonneg_left (hsplit ▸ hgrow) hunit.le
      _ = 10 ^ 17 * (unitsPerOne * 10 ^ place) := by ring
  rw [← hquotient, div_lt_iff₀ (Nat.cast_pos.mpr hpos)] at hlt
  exact (Nat.div_lt_iff_lt_mul hpos).mpr (by exact_mod_cast hlt)

/-- The shortest decimal of a magnitude that is not zero has at most seventeen digits, or is the
least number with eighteen, and its last digit stands neither behind the 324th place nor before the
308th. -/
theorem shortest_bounds (tie : TieRule) {m : Magnitude} (hm : m.significand ≠ 0) :
    (m.shortest tie).significand ≤ 10 ^ 17 ∧ -324 ≤ (m.shortest tie).exponent ∧
      (m.shortest tie).exponent ≤ 308 := by
  obtain ⟨-, -, hlow, hhigh⟩ := leadingPlace_spec hm
  obtain ⟨place, hplace, hplaceLow, hplaceHigh, hdecimal⟩ : ∃ place,
      (∃ d, m.decimalAt? tie place = some d) ∧ m.leadingPlace - 16 ≤ place ∧
        place ≤ m.leadingPlace ∧ -324 ≤ place := by
    rcases le_total (-324) (m.leadingPlace - 16) with hle | hle
    · exact ⟨_, exists_decimalAt? tie (step_lt_of_place hm (.inl rfl)), by omega, by omega, hle⟩
    · exact ⟨_, exists_decimalAt? tie (step_lt_of_place hm (.inr rfl)), hle, hlow, by omega⟩
  obtain ⟨first, hfirst, hfirstHigh, hshortest⟩ :=
    exists_place_of_shortest tie hplaceLow hplaceHigh hplace
  have hbelow := quotientAt_lt hm (Int.le_trans hplaceLow hfirst)
  have hrange : -324 ≤ first ∧ first ≤ 308 := ⟨by omega, by omega⟩
  rcases m.decimalAt?_cases tie first with hcase | hcase | ⟨hcase, -⟩
  all_goals rw [hshortest] at hcase
  · rw [Option.some.inj hcase]
    exact ⟨hbelow.le, hrange⟩
  · rw [Option.some.inj hcase]
    exact ⟨hbelow, hrange⟩
  · cases hcase

end Magnitude

end Calculator
