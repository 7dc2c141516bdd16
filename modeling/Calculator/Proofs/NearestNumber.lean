import Calculator.Proofs.ShortestDigits

/-!
# Rounding goes to the nearest number

A rational number that is not negative is rounded to the number nearest to it, and of two numbers
that are equally near to the one with the even significand. From 2¹⁰²⁴ - 2⁹⁷⁰ on, which is midway
between the largest number and the power of two above it, it is rounded to infinity. So rounding
keeps the order of rational numbers.
-/

namespace Calculator

open Binary64 (exists_unitsPerOne_eq unitsPerOne_pos)

/-! ## Whole numbers -/

/-- A quotient midway between two whole numbers is rounded to the even one. -/
theorem even_roundHalfEven {num den : Nat} (hden : 0 < den)
    (h : 2 * (den * roundHalfEven num den) = 2 * num + den ∨
      2 * num = 2 * (den * roundHalfEven num den) + den) : roundHalfEven num den % 2 = 0 := by
  have hdiv := Nat.div_add_mod num den
  have hmod := Nat.mod_lt num hden
  have hup : den * (num / den + 1) = den * (num / den) + den := Nat.mul_succ _ _
  simp only [roundHalfEven] at h ⊢
  split at h
  · omega
  · split at h
    · omega
    · next hbelow habove =>
      rw [if_neg hbelow, if_neg habove]
      omega

/-- A quotient is rounded to an even number or above it exactly from the midpoint below it on. -/
theorem le_roundHalfEven_iff {num den k : Nat} (hden : 0 < den) (hk : k % 2 = 0) :
    k ≤ roundHalfEven num den ↔ den * (2 * k) ≤ 2 * num + den := by
  obtain ⟨hlow, hhigh⟩ := roundHalfEven_half num hden
  constructor
  · intro hle
    have hmul := Nat.mul_le_mul_left den hle
    rw [Nat.mul_left_comm]
    omega
  · intro hmid
    refine Nat.le_of_not_lt fun hlt => ?_
    -- below an even number the quotient would lie midway, and so would be rounded to it
    have hmul := Nat.mul_le_mul_left den (Nat.succ_le_of_lt hlt)
    rw [Nat.mul_succ] at hmul
    rw [Nat.mul_left_comm] at hmid
    have htie : 2 * num = 2 * (den * roundHalfEven num den) + den := by omega
    have heven := even_roundHalfEven hden (.inr htie)
    have hnext : den * k = den * (roundHalfEven num den + 1) := by
      rw [Nat.mul_succ]
      omega
    have hsucc := Nat.eq_of_mul_eq_mul_left hden hnext
    omega

/-! ## The least quotient that is too large -/

/-- So many units are too large for a finite number, but not fewer: they are midway between the
largest magnitude and the power of two above it. -/
def overflowUnits : Nat :=
  (2 ^ 54 - 1) * 2 ^ 2044

/-- The units from which on a number is infinite are those of 2¹⁰²⁴ - 2⁹⁷⁰. -/
theorem overflowUnits_eq : (overflowUnits : ℚ) = (2 ^ 1024 - 2 ^ 970) * unitsPerOne := by
  obtain ⟨places, hcount, hplaces⟩ := exists_unitsPerOne_eq
  obtain ⟨low, hlow⟩ : ∃ low, low = 970 := ⟨970, rfl⟩
  rw [overflowUnits, hplaces, show 2044 = low + places by omega, show 1024 = 54 + low by omega,
    ← hlow]
  push_cast
  ring

namespace Magnitude

/-- At the largest exponent a significand is rounded up to 2⁵³ exactly for a quotient that is too
large. -/
theorem two_pow_le_roundedSignificand_iff {num den top : Nat} (hden : 0 < den)
    (htop : overflowUnits + 2 ^ top = 2 ^ 54 * 2 ^ top)
    (hexponent : exponentFor (num / den) = top + 1) :
    2 ^ 53 ≤ roundedSignificand num den ↔ den * overflowUnits ≤ num := by
  have hstep : 0 < den * 2 ^ (top + 1) := Nat.mul_pos hden (Nat.two_pow_pos _)
  have hmul := congrArg (den * ·) htop
  rw [roundedSignificand, hexponent, le_roundHalfEven_iff hstep (by decide), Nat.pow_succ 2 top]
  rw [Nat.mul_add] at hmul
  constructor <;> intro h <;> linarith

/-- A quotient has no nearest magnitude exactly if it is too large. -/
theorem nearest?_eq_none_iff {num den : Nat} (hden : 0 < den) :
    nearest? num den = none ↔ den * overflowUnits ≤ num := by
  obtain ⟨top, htop, hmax⟩ : ∃ top, top = 2044 ∧ overflowUnits + 2 ^ top = 2 ^ 54 * 2 ^ top := by
    refine ⟨2044, rfl, ?_⟩
    rw [overflowUnits, Nat.sub_mul, Nat.one_mul]
    exact Nat.sub_add_cancel (Nat.le_mul_of_pos_left _ (by decide))
  have hpos := Nat.two_pow_pos top
  constructor
  · intro hnone
    refine Nat.le_of_not_lt fun hlt => ?_
    have hsmall : num / den < 2 ^ 54 * 2 ^ top := by
      have hquotient := (Nat.div_lt_iff_lt_mul hden).mpr (Nat.mul_comm den _ ▸ hlt)
      omega
    have hexponent : exponentFor (num / den) ≤ top + 1 := by
      refine Nat.le_of_not_lt fun hlarge => ?_
      have hnonzero : exponentFor (num / den) ≠ 0 := by omega
      have hdigits := two_pow_exponentFor_le hnonzero
      have hpow : 2 ^ (top + 2) ≤ 2 ^ exponentFor (num / den) :=
        Nat.pow_le_pow_right (by decide) hlarge
      rw [Nat.pow_add 2 top] at hpow
      omega
    rcases Nat.lt_or_ge (roundedSignificand num den) (2 ^ 53) with hless | hcarry
    · obtain ⟨m, hm, -⟩ := nearest?_of_lt hden hless (by omega)
      rw [hnone] at hm
      cases hm
    · have hne : exponentFor (num / den) ≠ top + 1 := fun heq =>
        Nat.not_le.mpr hlt ((two_pow_le_roundedSignificand_iff hden hmax heq).mp hcarry)
      have hround := Nat.le_antisymm (roundedSignificand_bounds num hden).1 hcarry
      obtain ⟨m, hm, -⟩ := nearest?_of_eq hround (by omega)
      rw [hnone] at hm
      cases hm
  · intro hle
    cases hnearest : nearest? num den with
    | none => rfl
    | some m =>
      have hlimit := m.canonical.2.1
      have hexponent : top + 1 ≤ exponentFor (num / den) := by
        have hquotient := (Nat.le_div_iff_mul_le hden).mpr (Nat.mul_comm den _ ▸ hle)
        have hdigits := lt_two_pow_exponentFor (num / den)
        apply exponent_le_of_lt
        rw [Nat.pow_succ 2 top]
        omega
      rcases parts_of_nearest? hnearest with ⟨-, -, hparts⟩ | ⟨hparts, hsame⟩
      · omega
      · have hcarry := (two_pow_le_roundedSignificand_iff hden hmax (by omega)).mpr hle
        rw [← hparts] at hcarry
        exact absurd m.canonical.1 (Nat.not_lt.mpr hcarry)

end Magnitude

/-! ## The nearest magnitude -/

/-- Which of two points is nearer to a number is a matter of the side of their midpoint on which it
lies. -/
theorem abs_sub_le_abs_sub_iff {q a b : ℚ} :
    |q - a| ≤ |q - b| ↔ (b - a) * (2 * q - (a + b)) ≤ 0 := by
  have hsquares : (q - a) ^ 2 - (q - b) ^ 2 = (b - a) * (2 * q - (a + b)) := by ring
  rw [← sq_le_sq, ← sub_nonpos, hsquares]

/-- A point that is half a step or less away from a number is not farther from it than any point a
step or more away from that one. If both are equally far, the number lies midway. -/
theorem abs_sub_le_of_step {q step a b : ℚ} (ha : |q - a| ≤ step / 2) (hb : step ≤ |b - a|) :
    |q - a| ≤ |q - b| ∧ (|q - b| = |q - a| → |q - a| = step / 2) := by
  have htriangle : |b - a| ≤ |q - a| + |q - b| := by
    rw [show b - a = q - a - (q - b) by ring]
    exact abs_sub _ _
  constructor
  · linarith
  · intro hsame
    linarith

namespace Magnitude

variable {num den : Nat} {m : Magnitude}

/-- The nearest magnitude is off by half of the last digit that a quotient keeps at most. -/
theorem abs_sub_units_le_half (hden : 0 < den) (h : nearest? num den = some m) :
    |(num : ℚ) / den - m.units| ≤ 2 ^ exponentFor (num / den) / 2 := by
  obtain ⟨hlow, hhigh⟩ := half_of_nearest? hden h
  have hden' : (0 : ℚ) < den := Nat.cast_pos.mpr hden
  have hlow' : (den * (2 * m.units) : ℚ) ≤ 2 * num + den * 2 ^ exponentFor (num / den) := by
    exact_mod_cast hlow
  have hhigh' : (2 * num : ℚ) ≤ den * (2 * m.units) + den * 2 ^ exponentFor (num / den) := by
    exact_mod_cast hhigh
  have hquotient : (num : ℚ) / den * den = num := div_mul_cancel₀ _ hden'.ne'
  rw [abs_le]
  constructor
  · refine le_of_mul_le_mul_right ?_ hden'
    linarith
  · refine le_of_mul_le_mul_right ?_ hden'
    linarith

/-- Where the nearest magnitude is off by half of the last digit, it has an even significand. -/
theorem even_significand (hden : 0 < den) (h : nearest? num den = some m)
    (htie : |(num : ℚ) / den - m.units| = 2 ^ exponentFor (num / den) / 2) :
    m.significand % 2 = 0 := by
  have hden' : (den : ℚ) ≠ 0 := Nat.cast_ne_zero.mpr hden.ne'
  have hstep : 0 < den * 2 ^ exponentFor (num / den) := Nat.mul_pos hden (Nat.two_pow_pos _)
  have hunits := (units_of_nearest? h).1
  have heven : roundedSignificand num den % 2 = 0 := by
    apply even_roundHalfEven hstep
    rw [roundedSignificand] at hunits
    generalize exponentFor (num / den) = e at htie hunits ⊢
    generalize roundHalfEven num (den * 2 ^ e) = r at hunits ⊢
    have hcast : (m.units : ℚ) = r * 2 ^ e := by exact_mod_cast hunits
    rw [hcast] at htie
    rcases abs_eq (by positivity) |>.mp htie with habove | hbelow
    · right
      have hnum : (2 * num : ℚ) = 2 * (den * 2 ^ e * r) + den * 2 ^ e := by
        field_simp at habove
        linarith
      exact_mod_cast hnum
    · left
      have hnum : (2 * (den * 2 ^ e * r) : ℚ) = 2 * num + den * 2 ^ e := by
        field_simp at hbelow
        linarith
      exact_mod_cast hnum
  rcases parts_of_nearest? h with ⟨-, hsignificand, -⟩ | ⟨hsignificand, -⟩
  · rw [hsignificand]
    decide
  · rwa [hsignificand]

/-- No number of last digits is nearer to a quotient than its nearest magnitude is. -/
theorem abs_sub_units_le_multiple (hden : 0 < den) (h : nearest? num den = some m) (k : Nat) :
    |(num : ℚ) / den - m.units| ≤
        |(num : ℚ) / den - k * 2 ^ exponentFor (num / den)| ∧
      (|(num : ℚ) / den - k * 2 ^ exponentFor (num / den)| =
        |(num : ℚ) / den - m.units| →
        (k * 2 ^ exponentFor (num / den) : ℚ) ≠ m.units → m.significand % 2 = 0) := by
  by_cases hsame : (k * 2 ^ exponentFor (num / den) : ℚ) = m.units
  · rw [hsame]
    exact ⟨le_refl _, fun _ hne => absurd rfl hne⟩
  -- two different numbers of last digits are a last digit or more apart
  have hstep : (2 : ℚ) ^ exponentFor (num / den) ≤
      |(k * 2 ^ exponentFor (num / den) : ℚ) - m.units| := by
    have hunits : (m.units : ℚ) = roundedSignificand num den * 2 ^ exponentFor (num / den) := by
      exact_mod_cast (units_of_nearest? h).1
    have hpos : (0 : ℚ) < 2 ^ exponentFor (num / den) := by positivity
    have hne : (k : Int) - roundedSignificand num den ≠ 0 := by
      intro hzero
      have hk : k = roundedSignificand num den := by omega
      exact hsame (by rw [hunits, hk])
    have hone : (1 : ℚ) ≤ |(k : ℚ) - roundedSignificand num den| := by
      exact_mod_cast Int.one_le_abs hne
    rw [hunits, ← sub_mul, abs_mul, abs_of_pos hpos]
    exact le_mul_of_one_le_left hpos.le hone
  obtain ⟨hle, htie⟩ := abs_sub_le_of_step (abs_sub_units_le_half hden h) hstep
  exact ⟨hle, fun heq _ => even_significand hden h (htie heq)⟩

/-- A magnitude is a number of last digits at an exponent, or it has fewer than 53 digits there. -/
theorem exists_multiple_or_lt (n : Magnitude) (e : Nat) :
    (∃ k, n.units = k * 2 ^ e) ∨ (e ≠ 0 ∧ n.units < 2 ^ 52 * 2 ^ e) := by
  rcases Nat.le_total e n.exponent with hle | hle
  · left
    refine ⟨n.significand * 2 ^ (n.exponent - e), ?_⟩
    rw [units, Nat.mul_assoc, ← Nat.pow_add, Nat.sub_add_cancel hle]
  · rcases Nat.eq_or_lt_of_le hle with hsame | hlt
    · left
      exact ⟨n.significand, by rw [units, hsame]⟩
    · right
      refine ⟨by omega, ?_⟩
      obtain ⟨f, rfl⟩ : ∃ f, e = n.exponent + 1 + f := ⟨e - (n.exponent + 1), by omega⟩
      have hdigits : n.units < 2 ^ 53 * 2 ^ n.exponent :=
        (Nat.mul_lt_mul_right (Nat.two_pow_pos _)).mpr n.canonical.1
      have hpow : 2 ^ (n.exponent + 1) ≤ 2 ^ (n.exponent + 1 + f) :=
        Nat.pow_le_pow_right (by decide) (Nat.le_add_right _ _)
      rw [Nat.pow_succ 2 n.exponent] at hpow
      omega

/-- No magnitude is nearer to a quotient than its nearest one, and if another one is equally near,
the nearest one has an even significand. -/
theorem abs_sub_units_le (hden : 0 < den) (h : nearest? num den = some m) (n : Magnitude) :
    |(num : ℚ) / den - m.units| ≤ |(num : ℚ) / den - n.units| ∧
      (|(num : ℚ) / den - n.units| = |(num : ℚ) / den - m.units| → n.units ≠ m.units →
        m.significand % 2 = 0) := by
  rcases n.exists_multiple_or_lt (exponentFor (num / den)) with ⟨k, hk⟩ | ⟨hne, hlt⟩
  · obtain ⟨hle, htie⟩ := abs_sub_units_le_multiple hden h k
    have hunits : (n.units : ℚ) = k * 2 ^ exponentFor (num / den) := by exact_mod_cast hk
    rw [hunits]
    refine ⟨hle, fun heq hother => htie heq fun hsame => hother ?_⟩
    rw [← hunits] at hsame
    exact_mod_cast hsame
  · -- the least significand with 53 digits is a number of last digits and lies between
    obtain ⟨hle, -⟩ := abs_sub_units_le_multiple hden h (2 ^ 52)
    have hden' : (0 : ℚ) < den := Nat.cast_pos.mpr hden
    have hbottom : (2 ^ 52 * 2 ^ exponentFor (num / den) : ℚ) ≤ num / den := by
      have hdigits := two_pow_exponentFor_le hne
      rw [Nat.le_div_iff_mul_le hden] at hdigits
      rw [le_div_iff₀ hden']
      exact_mod_cast hdigits
    have hbelow : (n.units : ℚ) < 2 ^ 52 * 2 ^ exponentFor (num / den) := by exact_mod_cast hlt
    have hcloser : |(num : ℚ) / den - (2 ^ 52 : Nat) * 2 ^ exponentFor (num / den)| <
        |(num : ℚ) / den - n.units| := by
      push_cast
      rw [abs_of_nonneg (by linarith), abs_of_nonneg (by linarith)]
      linarith
    have hnearer := hle.trans_lt hcloser
    exact ⟨hnearer.le, fun heq => absurd heq hnearer.ne'⟩

end Magnitude

/-! ## The nearest number -/

/-- The rational number that a magnitude with a sign before it is. -/
def Magnitude.toRat (m : Magnitude) (negative : Bool) : ℚ :=
  m.signed negative / unitsPerOne

/-- A magnitude is the number nearest to a rational number: no finite number is nearer, and if
another one is equally near, the magnitude has an even significand. -/
structure Magnitude.IsNearest (m : Magnitude) (q : ℚ) : Prop where
  le : ∀ (negative : Bool) (n : Magnitude), |q - m.toRat false| ≤ |q - n.toRat negative|
  even : ∀ (negative : Bool) (n : Magnitude), n.toRat negative ≠ m.toRat false →
    |q - n.toRat negative| = |q - m.toRat false| → m.significand % 2 = 0

/-- What a rational number that is not negative is rounded to: positive infinity exactly from
2¹⁰²⁴ - 2⁹⁷⁰ on, and else the nearest magnitude, with a positive sign. -/
structure Binary64.IsRounded (x : Binary64) (q : ℚ) : Prop where
  infinite_iff : x = .infinite false ↔ 2 ^ 1024 - 2 ^ 970 ≤ q
  exists_nearest : q < 2 ^ 1024 - 2 ^ 970 → ∃ m, x = .finite false m ∧ m.IsNearest q

namespace Magnitude

variable {num den : Nat} {m : Magnitude}

/-- A positive magnitude as a rational number. -/
theorem toRat_false (m : Magnitude) : m.toRat false = m.units / unitsPerOne := by
  rw [toRat, signed, if_neg Bool.false_ne_true, Int.cast_natCast]

/-- A negative magnitude as a rational number. -/
theorem toRat_true (m : Magnitude) : m.toRat true = -(m.units / unitsPerOne) := by
  rw [toRat, signed, if_pos rfl, Int.cast_neg, Int.cast_natCast, neg_div]

/-- The nearest magnitude of a quotient of units is the number nearest to it. -/
theorem isNearest_of_nearest? (hden : 0 < den) (h : nearest? num den = some m) :
    m.IsNearest (num / den / unitsPerOne) := by
  have hone : (0 : ℚ) < unitsPerOne := Nat.cast_pos.mpr unitsPerOne_pos
  have hquotient : (0 : ℚ) ≤ num / den := div_nonneg (Nat.cast_nonneg _) (Nat.cast_nonneg _)
  have hscale : ∀ u : ℚ, |(num : ℚ) / den / unitsPerOne - u / unitsPerOne| =
      |(num : ℚ) / den - u| / unitsPerOne := by
    intro u
    rw [← sub_div, abs_div, abs_of_pos hone]
  -- of two numbers that differ in their signs the negative one is not nearer
  have hnegative : ∀ n : Magnitude, |(num : ℚ) / den - n.units| ≤ |(num : ℚ) / den - -n.units| := by
    intro n
    have hunits : (0 : ℚ) ≤ n.units := Nat.cast_nonneg _
    rw [sub_neg_eq_add, abs_of_nonneg (add_nonneg hquotient hunits)]
    exact abs_le.mpr ⟨by linarith, by linarith⟩
  constructor
  · intro negative n
    have hle := (abs_sub_units_le hden h n).1
    cases negative with
    | false =>
      rw [toRat_false, toRat_false, hscale, hscale]
      exact div_le_div_of_nonneg_right hle hone.le
    | true =>
      rw [toRat_false, toRat_true, ← neg_div, hscale, hscale]
      exact div_le_div_of_nonneg_right (hle.trans (hnegative n)) hone.le
  · intro negative n hne htie
    obtain ⟨hle, heven⟩ := abs_sub_units_le hden h n
    have hother : (n.units : ℚ) ≠ m.units → n.units ≠ m.units := fun hunits hsame =>
      hunits (congrArg Nat.cast hsame)
    cases negative with
    | false =>
      rw [toRat_false, toRat_false] at hne htie
      rw [hscale, hscale, div_left_inj' hone.ne'] at htie
      refine heven htie (hother fun hsame => hne ?_)
      rw [hsame]
    | true =>
      rw [toRat_false, toRat_true, ← neg_div] at hne htie
      rw [hscale, hscale, div_left_inj' hone.ne'] at htie
      have hsame := le_antisymm (htie ▸ hnegative n) hle
      refine heven hsame (hother fun hunits => hne ?_)
      -- a quotient is as near to a number as to its opposite only if one of the two is zero
      have hzero : (n.units : ℚ) = 0 := by
        rcases abs_eq_abs.mp (htie.trans hsame.symm) with heq | heq
        · linarith
        · have hclose := (abs_sub_units_le hden h zero).1
          rw [show zero.units = 0 from rfl, show (num : ℚ) / den = 0 by linarith, Nat.cast_zero,
            sub_zero, abs_zero, zero_sub, abs_neg, ← hunits] at hclose
          exact abs_nonpos_iff.mp hclose
      rw [← hunits, hzero, neg_zero]

end Magnitude

namespace Binary64

/-- A quotient of units is rounded to the number nearest to it. -/
theorem isRounded_round {num den : Nat} (hden : 0 < den) :
    (round false num den).IsRounded (num / den / unitsPerOne) := by
  have hone : (0 : ℚ) < unitsPerOne := Nat.cast_pos.mpr unitsPerOne_pos
  have hbound : (2 ^ 1024 - 2 ^ 970 : ℚ) ≤ num / den / unitsPerOne ↔
      den * overflowUnits ≤ num := by
    rw [le_div_iff₀ hone, ← overflowUnits_eq, le_div_iff₀ (Nat.cast_pos.mpr hden), mul_comm]
    exact_mod_cast Iff.rfl
  have hnone : Magnitude.nearest? num den = none ↔ den * overflowUnits ≤ num :=
    Magnitude.nearest?_eq_none_iff hden
  unfold round
  cases hnearest : Magnitude.nearest? num den with
  | none =>
    have hle := hbound.mpr (hnone.mp hnearest)
    exact ⟨iff_of_true rfl hle, fun hlt => absurd hle (not_le.mpr hlt)⟩
  | some m =>
    refine ⟨iff_of_false nofun fun hle => ?_, fun _ => ?_⟩
    · have hsome := hnone.mpr (hbound.mp hle)
      rw [hnearest] at hsome
      cases hsome
    · exact ⟨m, rfl, Magnitude.isNearest_of_nearest? hden hnearest⟩

/-- Quotients that are equal are rounded to the same number. -/
theorem round_eq_of_div_eq (negative : Bool) {num den num' den' : Nat} (hden : 0 < den)
    (hden' : 0 < den') (h : (num : ℚ) / den = num' / den') :
    round negative num den = round negative num' den' := by
  rw [div_eq_div_iff (Nat.cast_ne_zero.mpr hden.ne') (Nat.cast_ne_zero.mpr hden'.ne')] at h
  have hcross : num * den' = num' * den := by exact_mod_cast h
  rw [← round_mul_right negative num den hden', hcross, Nat.mul_comm den den',
    round_mul_right negative num' den' hden]

/-- **Rounding keeps the order.** The lesser one of two rational numbers is not rounded to a larger
number. -/
theorem IsRounded.lt_eq_false {x y : Binary64} {p q : ℚ} (hx : x.IsRounded p)
    (hy : y.IsRounded q) (h : p < q) : y.lt x = false := by
  by_cases hq : q < 2 ^ 1024 - 2 ^ 970
  · obtain ⟨n, rfl, hn⟩ := hy.exists_nearest hq
    obtain ⟨m, rfl, hm⟩ := hx.exists_nearest (h.trans hq)
    refine Bool.eq_false_iff.mpr fun hlt => ?_
    have hsigned : n.signed false < m.signed false := of_decide_eq_true hlt
    have hless : n.toRat false < m.toRat false := by
      have hone : (0 : ℚ) < unitsPerOne := Nat.cast_pos.mpr unitsPerOne_pos
      exact div_lt_div_of_pos_right (Int.cast_lt.mpr hsigned) hone
    -- the lesser number would not lie below the midpoint of the two results, nor the larger one
    -- above it
    have hbelow := abs_sub_le_abs_sub_iff.mp (hn.le false m)
    have habove := abs_sub_le_abs_sub_iff.mp (hm.le false n)
    have hproduct := mul_pos (sub_pos.mpr hless) (sub_pos.mpr h)
    linarith
  · rw [hy.infinite_iff.mpr (not_lt.mp hq)]
    cases x <;> rfl

end Binary64

end Calculator
