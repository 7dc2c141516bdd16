import Calculator.Proofs.ExactRounding

/-!
# How far rounding goes

A quotient is rounded to a whole number that is off by one half at most, and so a magnitude is off
by half of its last digit. A quotient that does not exceed some magnitude has a nearest one, and one
that is at least a unit does not vanish.
-/

namespace Calculator

/-! ## Whole numbers -/

/-- A quotient is rounded to a whole number that is off by one half at most. -/
theorem roundHalfEven_half (num : Nat) {den : Nat} (hden : 0 < den) :
    2 * (den * roundHalfEven num den) ≤ 2 * num + den ∧
      2 * num ≤ 2 * (den * roundHalfEven num den) + den := by
  have hdiv := Nat.div_add_mod num den
  have hmod := Nat.mod_lt num hden
  have hup : den * (num / den + 1) = den * (num / den) + den := Nat.mul_succ _ _
  rw [roundHalfEven]
  split
  · omega
  · split
    · omega
    · -- a half goes to one of the two neighbours
      rcases Nat.mod_two_eq_zero_or_one (num / den) with heven | hodd
      · rw [heven, Nat.add_zero]
        omega
      · rw [hodd]
        omega

variable {num den : Nat}

/-- A quotient is not rounded over a whole number. -/
theorem roundHalfEven_le (hden : 0 < den) {k : Nat} (h : num ≤ den * k) :
    roundHalfEven num den ≤ k := by
  have hhalf := (roundHalfEven_half num hden).1
  refine Nat.le_of_lt_succ (Nat.lt_of_mul_lt_mul_left (a := den) ?_)
  rw [Nat.mul_succ]
  omega

/-- A quotient is not rounded below a whole number. -/
theorem le_roundHalfEven (hden : 0 < den) {k : Nat} (h : den * k ≤ num) :
    k ≤ roundHalfEven num den := by
  have hhalf := (roundHalfEven_half num hden).2
  refine Nat.le_of_lt_succ (Nat.lt_of_mul_lt_mul_left (a := den) ?_)
  rw [Nat.mul_succ]
  omega

/-! ## The exponent of a quotient -/

/-- A number of units has no more than 53 binary digits at its exponent. -/
theorem lt_two_pow_exponentFor (units : Nat) : units < 2 ^ 53 * 2 ^ exponentFor units := by
  have hlog : units < 2 ^ (units.log2 + 1) := Nat.lt_log2_self
  have hle : 2 ^ (units.log2 + 1) ≤ 2 ^ (53 + exponentFor units) :=
    Nat.pow_le_pow_right (by decide) (by rw [exponentFor]; omega)
  rw [← Nat.pow_add]
  exact Nat.lt_of_lt_of_le hlog hle

/-- A number of units has 53 binary digits at its exponent, unless that is the least one. -/
theorem two_pow_exponentFor_le {units : Nat} (h : exponentFor units ≠ 0) :
    2 ^ 52 * 2 ^ exponentFor units ≤ units := by
  rw [exponentFor] at h ⊢
  have hne : units ≠ 0 := by
    rintro rfl
    exact h (by rw [Nat.log2_zero])
  have hlog := Nat.log2_self_le hne
  rwa [← Nat.pow_add, Nat.add_sub_cancel' (by omega)]

/-- A number with 53 digits at one exponent and no more at another has its digits at the lower
one. -/
theorem exponent_le_of_lt {a b : Nat} (h : 2 ^ 52 * 2 ^ a < 2 ^ 53 * 2 ^ b) : a ≤ b := by
  rw [← Nat.pow_add, ← Nat.pow_add] at h
  have hexponents := (Nat.pow_lt_pow_iff_right (by decide)).mp h
  omega

/-- The exponent of a number of units is the one at which it has 53 binary digits, or the least one
if it has no more there. -/
theorem exponentFor_eq {units e : Nat} (hlow : e = 0 ∨ 2 ^ 52 * 2 ^ e ≤ units)
    (hhigh : units < 2 ^ 53 * 2 ^ e) : exponentFor units = e := by
  apply Nat.le_antisymm
  · by_cases hzero : exponentFor units = 0
    · omega
    · exact exponent_le_of_lt (Nat.lt_of_le_of_lt (two_pow_exponentFor_le hzero) hhigh)
  · rcases hlow with hzero | hlow
    · omega
    · exact exponent_le_of_lt (Nat.lt_of_le_of_lt hlow (lt_two_pow_exponentFor units))

/-- More units do not have a lower exponent. -/
theorem exponentFor_mono {a b : Nat} (h : a ≤ b) : exponentFor a ≤ exponentFor b := by
  by_cases hzero : exponentFor a = 0
  · omega
  · have hle := Nat.le_trans (two_pow_exponentFor_le hzero) h
    exact exponent_le_of_lt (Nat.lt_of_le_of_lt hle (lt_two_pow_exponentFor b))

/-! ## Magnitudes -/

namespace Magnitude

/-- The significand that a quotient is rounded to at its exponent. -/
def roundedSignificand (num den : Nat) : Nat :=
  roundHalfEven num (den * 2 ^ exponentFor (num / den))

/-- The significand to which a quotient is rounded has 53 binary digits, or fewer at the least
exponent, unless it is rounded up to 2⁵³. -/
theorem roundedSignificand_bounds (num : Nat) (hden : 0 < den) :
    roundedSignificand num den ≤ 2 ^ 53 ∧
      (exponentFor (num / den) = 0 ∨ 2 ^ 52 ≤ roundedSignificand num den) := by
  have hpos : 0 < den * 2 ^ exponentFor (num / den) := Nat.mul_pos hden (Nat.two_pow_pos _)
  constructor
  · apply roundHalfEven_le hpos
    have hlt := (Nat.div_lt_iff_lt_mul hden).mp (lt_two_pow_exponentFor (num / den))
    rw [Nat.mul_comm (2 ^ 53), Nat.mul_right_comm, Nat.mul_comm _ den] at hlt
    exact Nat.le_of_lt hlt
  · by_cases hzero : exponentFor (num / den) = 0
    · exact .inl hzero
    · refine .inr (le_roundHalfEven hpos ?_)
      have hle := (Nat.le_div_iff_mul_le hden).mp (two_pow_exponentFor_le hzero)
      rwa [Nat.mul_comm (2 ^ 52), Nat.mul_right_comm, Nat.mul_comm _ den] at hle

/-- The parts of the nearest magnitude: the rounded significand at its exponent, or a significand of
2⁵² at the next one where it is rounded up to 2⁵³. -/
theorem parts_of_nearest? {n : Magnitude} (h : nearest? num den = some n) :
    (roundedSignificand num den = 2 ^ 53 ∧ n.significand = 2 ^ 52 ∧
      n.exponent = exponentFor (num / den) + 1) ∨
    (n.significand = roundedSignificand num den ∧ n.exponent = exponentFor (num / den)) := by
  rw [nearest?, ofParts?, ofParts?] at h
  split at h
  · next heq =>
    split at h
    · cases h
      exact .inl ⟨heq, rfl, rfl⟩
    · cases h
  · split at h
    · cases h
      exact .inr ⟨rfl, rfl⟩
    · cases h

/-- A number that is rounded to a finite one is rounded to its nearest magnitude. -/
theorem nearest?_of_round {negative b : Bool} {n : Magnitude}
    (h : Binary64.round negative num den = .finite b n) : nearest? num den = some n := by
  unfold Binary64.round at h
  split at h
  · next heq =>
    cases h
    exact heq
  · cases h

/-- A quotient is rounded to its nearest magnitude, if there is one. -/
theorem round_of_nearest? {n : Magnitude} (negative : Bool) (h : nearest? num den = some n) :
    Binary64.round negative num den = .finite negative n := by
  unfold Binary64.round
  rw [h]

/-- The nearest magnitude is the rounded significand at the exponent of the quotient, which is not
larger than its own. -/
theorem units_of_nearest? {n : Magnitude} (h : nearest? num den = some n) :
    n.units = roundedSignificand num den * 2 ^ exponentFor (num / den) ∧
      exponentFor (num / den) ≤ n.exponent := by
  rw [units]
  rcases parts_of_nearest? h with ⟨hround, hsignificand, hexponent⟩ | ⟨hsignificand, hexponent⟩
  · rw [hsignificand, hexponent, hround, Nat.pow_succ 2 (exponentFor (num / den))]
    exact ⟨by omega, Nat.le_succ _⟩
  · rw [hsignificand, hexponent]
    exact ⟨rfl, Nat.le_refl _⟩

/-- The nearest magnitude is off by half of the last digit that a quotient keeps at most. -/
theorem half_of_nearest? (hden : 0 < den) {n : Magnitude} (h : nearest? num den = some n) :
    den * (2 * n.units) ≤ 2 * num + den * 2 ^ exponentFor (num / den) ∧
      2 * num ≤ den * (2 * n.units) + den * 2 ^ exponentFor (num / den) := by
  have hpos := Nat.mul_pos hden (Nat.two_pow_pos (exponentFor (num / den)))
  have hhalf := roundHalfEven_half num hpos
  have hunits : den * (2 * n.units) =
      2 * (den * 2 ^ exponentFor (num / den) * roundedSignificand num den) := by
    rw [(units_of_nearest? h).1]
    grind
  rw [hunits]
  exact hhalf

/-- The nearest magnitude is off by half of its last digit at most. -/
theorem half_digit_of_nearest? (hden : 0 < den) {n : Magnitude} (h : nearest? num den = some n) :
    den * (2 * n.units) ≤ 2 * num + den * 2 ^ n.exponent ∧
      2 * num ≤ den * (2 * n.units) + den * 2 ^ n.exponent := by
  have hhalf := half_of_nearest? hden h
  have hstep : den * 2 ^ exponentFor (num / den) ≤ den * 2 ^ n.exponent :=
    Nat.mul_le_mul_left _ (Nat.pow_le_pow_right (by decide) (units_of_nearest? h).2)
  omega

/-- A quotient whose significand keeps its 53 digits has a nearest magnitude at its exponent. -/
theorem nearest?_of_lt (hden : 0 < den) (hlt : roundedSignificand num den < 2 ^ 53)
    (hmax : exponentFor (num / den) ≤ 2045) :
    ∃ n, nearest? num den = some n ∧ n.significand = roundedSignificand num den ∧
      n.exponent = exponentFor (num / den) := by
  have hcanonical : Canonical (roundedSignificand num den) (exponentFor (num / den)) :=
    ⟨hlt, hmax, (roundedSignificand_bounds num hden).2⟩
  refine ⟨⟨_, _, hcanonical⟩, ?_, rfl, rfl⟩
  rw [nearest?]
  exact (if_neg (Nat.ne_of_lt hlt)).trans (dif_pos hcanonical)

/-- A quotient whose significand is rounded up to 2⁵³ has a nearest magnitude at the next
exponent. -/
theorem nearest?_of_eq (heq : roundedSignificand num den = 2 ^ 53)
    (hmax : exponentFor (num / den) + 1 ≤ 2045) :
    ∃ n, nearest? num den = some n ∧ n.significand = 2 ^ 52 ∧
      n.exponent = exponentFor (num / den) + 1 := by
  have hcanonical : Canonical (2 ^ 52) (exponentFor (num / den) + 1) :=
    ⟨by decide, hmax, .inr (Nat.le_refl _)⟩
  refine ⟨⟨_, _, hcanonical⟩, ?_, rfl, rfl⟩
  rw [nearest?]
  exact (if_pos heq).trans (dif_pos hcanonical)

/-- A quotient that does not exceed some magnitude has a nearest one. -/
theorem exists_nearest? (hden : 0 < den) {m : Magnitude} (h : num ≤ den * m.units) :
    ∃ n, nearest? num den = some n := by
  have hmax : m.exponent ≤ 2045 := m.canonical.2.1
  have hexponent : exponentFor (num / den) ≤ m.exponent := by
    rw [← m.exponentFor_units]
    exact exponentFor_mono (Nat.div_le_of_le_mul h)
  rcases Nat.lt_or_ge (roundedSignificand num den) (2 ^ 53) with hlt | hge
  · obtain ⟨n, hsome, -⟩ := nearest?_of_lt hden hlt (Nat.le_trans hexponent hmax)
    exact ⟨n, hsome⟩
  · -- at the exponent of `m` the significand would not exceed that of `m`
    have hne : exponentFor (num / den) ≠ m.exponent := by
      intro hsame
      have hle : num ≤ den * 2 ^ m.exponent * m.significand := by
        rw [Nat.mul_assoc, Nat.mul_comm (2 ^ m.exponent)]
        exact h
      have hround := roundHalfEven_le (Nat.mul_pos hden (Nat.two_pow_pos m.exponent)) hle
      rw [roundedSignificand, hsame] at hge
      exact absurd (Nat.lt_of_le_of_lt hround m.canonical.1) (Nat.not_lt.mpr hge)
    have heq := Nat.le_antisymm (roundedSignificand_bounds num hden).1 hge
    obtain ⟨n, hsome, -⟩ := nearest?_of_eq heq (by omega)
    exact ⟨n, hsome⟩

/-- A number of units that loses no digit at its exponent is a magnitude. -/
theorem units_eq_of_nearest? {units : Nat} {n : Magnitude} (h : nearest? units 1 = some n)
    (hdvd : 2 ^ exponentFor units ∣ units) : n.units = units := by
  obtain ⟨k, hk⟩ := hdvd
  rw [Nat.mul_comm] at hk
  rw [(units_of_nearest? h).1, roundedSignificand, Nat.div_one]
  generalize exponentFor units = e at hk
  have hround : roundHalfEven (k * 2 ^ e) (1 * 2 ^ e) = k := by
    rw [roundHalfEven_mul_right _ _ (Nat.two_pow_pos e), roundHalfEven, Nat.mod_one, Nat.div_one]
    rfl
  rw [hk, hround]

/-- What has no more than 53 digits at some exponent is a magnitude. -/
theorem exists_nearest?_exact {s e : Nat} (hs : s < 2 ^ 53) (he : e ≤ 2045) :
    ∃ m, nearest? (s * 2 ^ e) 1 = some m ∧ m.units = s * 2 ^ e := by
  have hle : s * 2 ^ e ≤ units ⟨2 ^ 53 - 1, e, by decide, he, .inr (by decide)⟩ :=
    Nat.mul_le_mul_right _ (Nat.le_pred_of_lt hs)
  have hroom := Nat.le_trans hle (Nat.le_of_eq (Nat.one_mul _).symm)
  obtain ⟨m, hm⟩ := exists_nearest? Nat.one_pos hroom
  have hexponent : exponentFor (s * 2 ^ e) ≤ e := by
    have hmono := exponentFor_mono hle
    rwa [exponentFor_units] at hmono
  refine ⟨m, hm, units_eq_of_nearest? hm ?_⟩
  exact Nat.dvd_trans (Nat.pow_dvd_pow 2 hexponent) (Nat.dvd_mul_left _ _)

/-- A multiple of a power of two is rounded to a multiple of it. -/
theorem dvd_units_of_nearest? {units k : Nat} {n : Magnitude} (h : nearest? units 1 = some n)
    (hdvd : 2 ^ k ∣ units) : 2 ^ k ∣ n.units := by
  rcases Nat.le_total k (exponentFor units) with hle | hle
  · rw [(units_of_nearest? h).1, Nat.div_one]
    exact Nat.dvd_trans (Nat.pow_dvd_pow 2 hle) (Nat.dvd_mul_left _ _)
  · rwa [units_eq_of_nearest? h (Nat.dvd_trans (Nat.pow_dvd_pow 2 hle) hdvd)]

/-- A quotient is not rounded over a magnitude. -/
theorem units_le_of_nearest? (hden : 0 < den) {m n : Magnitude} (h : num ≤ den * m.units)
    (hn : nearest? num den = some n) : n.units ≤ m.units := by
  have hexponent : exponentFor (num / den) ≤ m.exponent := by
    rw [← m.exponentFor_units]
    exact exponentFor_mono (Nat.div_le_of_le_mul h)
  rw [(units_of_nearest? hn).1, roundedSignificand, units]
  generalize exponentFor (num / den) = e at hexponent
  obtain ⟨j, hj⟩ := Nat.exists_eq_add_of_le hexponent
  have hunits : den * m.units = den * 2 ^ e * (m.significand * 2 ^ j) := by
    rw [units, hj, Nat.pow_add]
    grind
  rw [hunits] at h
  rw [hj, Nat.pow_add, Nat.mul_comm (2 ^ e), ← Nat.mul_assoc]
  exact Nat.mul_le_mul_right _ (roundHalfEven_le (Nat.mul_pos hden (Nat.two_pow_pos e)) h)

/-- A quotient of a unit or more is not rounded to zero. -/
theorem significand_ne_zero (hden : 0 < den) (h : den ≤ num) {n : Magnitude}
    (hn : nearest? num den = some n) : n.significand ≠ 0 := by
  rcases parts_of_nearest? hn with ⟨-, hsignificand, -⟩ | ⟨hsignificand, -⟩
  · rw [hsignificand]
    decide
  · rw [hsignificand]
    apply Nat.ne_of_gt
    rcases (roundedSignificand_bounds num hden).2 with hzero | hlow
    · rw [roundedSignificand, hzero, Nat.pow_zero, Nat.mul_one]
      exact le_roundHalfEven hden (by rwa [Nat.mul_one])
    · exact Nat.lt_of_lt_of_le (by decide) hlow

end Magnitude

end Calculator
