import Calculator.Decimal.Shortest

/-!
# Rounding gives back what is exact

A quotient is rounded to the same number when both of its parts are multiplied by a third number.
So it does not matter with which exponent a decimal is written. A magnitude is the one nearest to
itself, and the decimal with the fewest digits that is found for a magnitude reads back as it.
-/

namespace Calculator

/-! ## Quotients with a common factor -/

/-- A common factor does not change to which whole number a quotient is rounded. -/
theorem roundHalfEven_mul_right (num den : Nat) {k : Nat} (hk : 0 < k) :
    roundHalfEven (num * k) (den * k) = roundHalfEven num den := by
  have hmod : 2 * (num * k % (den * k)) = 2 * (num % den) * k := by
    rw [Nat.mul_mod_mul_right, Nat.mul_assoc]
  simp only [roundHalfEven, hmod, Nat.mul_div_mul_right _ _ hk, Nat.mul_lt_mul_right hk]

/-- A common factor does not change which magnitude is the nearest. -/
theorem Magnitude.nearest?_mul_right (num den : Nat) {k : Nat} (hk : 0 < k) :
    nearest? (num * k) (den * k) = nearest? num den := by
  have hexponent : exponentFor (num * k / (den * k)) = exponentFor (num / den) := by
    rw [Nat.mul_div_mul_right _ _ hk]
  have hround : roundHalfEven (num * k) (den * k * 2 ^ exponentFor (num / den)) =
      roundHalfEven num (den * 2 ^ exponentFor (num / den)) := by
    rw [Nat.mul_right_comm den k, roundHalfEven_mul_right num _ hk]
  rw [nearest?, nearest?, hexponent, hround]

/-- A common factor does not change to which number a quotient is rounded. -/
theorem Binary64.round_mul_right (negative : Bool) (num den : Nat) {k : Nat} (hk : 0 < k) :
    round negative (num * k) (den * k) = round negative num den := by
  unfold round
  rw [Magnitude.nearest?_mul_right num den hk]

/-- A multiple of the denominator is rounded as the whole number that the quotient is. -/
theorem Binary64.round_mul_self (negative : Bool) (num : Nat) {den : Nat} (hden : 0 < den) :
    round negative (num * den) den = round negative num 1 := by
  have hround := round_mul_right negative num 1 hden
  rwa [Nat.one_mul] at hround

/-! ## Decimals with another exponent -/

namespace Binary64

/-- A decimal is rounded as the quotient that it stands for, however its exponent is written as a
difference. -/
theorem ofDecimal_eq_round (negative : Bool) (significand : Nat) {exponent : Int} {a b : Nat}
    (h : exponent = a - b) : ofDecimal negative significand exponent =
      round negative (significand * 10 ^ a * unitsPerOne) (10 ^ b) := by
  -- whatever `a` and `b` have in common is a power of ten in both parts of the quotient
  cases exponent with
  | ofNat k =>
    obtain rfl : a = k + b := by
      rw [Int.ofNat_eq_natCast] at h
      omega
    have hpow : significand * 10 ^ (k + b) * unitsPerOne =
        significand * 10 ^ k * unitsPerOne * 10 ^ b := by
      rw [Nat.pow_add, ← Nat.mul_assoc, Nat.mul_right_comm]
    rw [hpow, round_mul_self _ _ (Nat.pow_pos (by decide))]
    rfl
  | negSucc k =>
    obtain rfl : b = k + 1 + a := by
      rw [Int.negSucc_eq] at h
      omega
    rw [Nat.pow_add, Nat.mul_right_comm, round_mul_right _ _ _ (Nat.pow_pos (by decide))]
    rfl

/-- Zeros at the end of a decimal may be moved into its exponent. -/
theorem ofDecimal_mul_pow (negative : Bool) (significand zeros : Nat) (exponent : Int) :
    ofDecimal negative (significand * 10 ^ zeros) exponent =
      ofDecimal negative significand (exponent + zeros) := by
  have hleft : exponent = (exponent.toNat : Int) - ((-exponent).toNat : Int) := by omega
  have hright : exponent + zeros = ((zeros + exponent.toNat : Nat) : Int) -
      ((-exponent).toNat : Int) := by omega
  rw [ofDecimal_eq_round _ _ hleft, ofDecimal_eq_round _ _ hright, Nat.pow_add, Nat.mul_assoc
    significand]

/-- A whole number is rounded as the decimal without places. -/
theorem ofDecimal_zero_exponent (significand : Nat) :
    ofDecimal false significand 0 = ofNat significand := by
  rw [ofDecimal_eq_round false significand (show (0 : Int) = ((0 : Nat) : Int) - ((0 : Nat) : Int)
    from rfl), Nat.pow_zero, Nat.mul_one, ofNat]

end Binary64

/-! ## Magnitudes -/

namespace Magnitude

/-- The parts of a magnitude make it. -/
theorem ofParts?_self (m : Magnitude) : ofParts? m.significand m.exponent = some m :=
  dif_pos m.canonical

/-- The units of a magnitude keep 53 binary digits at its own exponent. -/
theorem exponentFor_units (m : Magnitude) : exponentFor m.units = m.exponent := by
  obtain ⟨hlt, -, hnormal⟩ := m.canonical
  rw [exponentFor, units]
  rcases hnormal with hleast | hnormal
  · -- at the least exponent any number of the 53 digits may be in use
    rw [hleast, Nat.pow_zero, Nat.mul_one]
    by_cases hzero : m.significand = 0
    · rw [hzero, Nat.log2_zero]
    · have hlog : m.significand.log2 < 53 := (Nat.log2_lt hzero).mpr hlt
      omega
  · -- else all 53 digits are in use, which gives the logarithm
    have hpos : 0 < 2 ^ m.exponent := Nat.two_pow_pos m.exponent
    have hlow : 2 ^ (52 + m.exponent) ≤ m.significand * 2 ^ m.exponent := by
      rw [Nat.pow_add]
      exact Nat.mul_le_mul_right _ hnormal
    have hhigh : m.significand * 2 ^ m.exponent < 2 ^ (52 + m.exponent + 1) := by
      rw [show 52 + m.exponent + 1 = 53 + m.exponent by omega, Nat.pow_add]
      exact (Nat.mul_lt_mul_right hpos).mpr hlt
    have hne : m.significand * 2 ^ m.exponent ≠ 0 := Nat.ne_of_gt
      (Nat.lt_of_lt_of_le (Nat.two_pow_pos _) hlow)
    rw [(Nat.log2_eq_iff hne).mpr ⟨hlow, hhigh⟩]
    omega

/-- A magnitude is the one nearest to itself. -/
theorem nearest?_units (m : Magnitude) : nearest? m.units 1 = some m := by
  have hround : roundHalfEven m.units (1 * 2 ^ m.exponent) = m.significand := by
    rw [units, roundHalfEven_mul_right _ _ (Nat.two_pow_pos m.exponent)]
    rw [roundHalfEven, Nat.mod_one, Nat.div_one]
    rfl
  rw [nearest?, Nat.div_one, exponentFor_units, hround, if_neg (Nat.ne_of_lt m.canonical.1),
    ofParts?_self]

/-- A magnitude is determined by its units. -/
theorem eq_of_units_eq {m n : Magnitude} (h : m.units = n.units) : m = n := by
  have hm := m.nearest?_units
  rw [h, nearest?_units] at hm
  exact (Option.some.inj hm).symm

/-- A number of units is rounded to the magnitude that has so many. -/
theorem round_units (negative : Bool) (m : Magnitude) :
    Binary64.round negative m.units 1 = .finite negative m := by
  unfold Binary64.round
  rw [nearest?_units]

/-- A magnitude without units is one without a significand. -/
theorem units_eq_zero_iff (m : Magnitude) : m.units = 0 ↔ m.significand = 0 := by
  rw [units, Nat.mul_eq_zero]
  exact or_iff_left (Nat.ne_of_gt (Nat.two_pow_pos _))

/-- Zero is the only magnitude without units. -/
theorem eq_zero {m : Magnitude} (h : m.significand = 0) : m = zero := by
  obtain ⟨significand, exponent, hcanonical⟩ := m
  obtain rfl : significand = 0 := h
  obtain rfl : exponent = 0 := by
    rcases hcanonical.2.2 with hleast | hnormal
    · exact hleast
    · exact absurd hnormal (by decide)
  rfl

/-- A quotient without units is rounded to zero. -/
theorem round_zero (negative : Bool) {den : Nat} (hden : 0 < den) :
    Binary64.round negative 0 den = .finite negative zero := by
  have hround := Binary64.round_mul_self negative 0 hden
  rw [Nat.zero_mul] at hround
  exact hround.trans (round_units negative zero)

/-! ## Decimals that read back -/

/-- A decimal without a digit other than zero is zero. -/
theorem ofDecimal_zero (negative : Bool) (exponent : Int) :
    Binary64.ofDecimal negative 0 exponent = .finite negative zero := by
  rw [Binary64.ofDecimal_eq_round negative 0
    (show exponent = (exponent.toNat : Int) - ((-exponent).toNat : Int) by omega), Nat.zero_mul,
    Nat.zero_mul, round_zero negative (Nat.pow_pos (by decide))]

/-- A magnitude is read from a decimal with as many places as its units have binary places. -/
theorem ofDecimal_units (m : Magnitude) (places : Nat) (hplaces : unitsPerOne = 2 ^ places) :
    Binary64.ofDecimal false (m.units * 5 ^ places) (-(places : Int)) = .finite false m := by
  have hread := Binary64.ofDecimal_eq_round false (m.units * 5 ^ places)
    (show -(places : Int) = ((0 : Nat) : Int) - (places : Int) by omega)
  have hten : m.units * 5 ^ places * 10 ^ 0 * unitsPerOne = m.units * 10 ^ places := by
    rw [Nat.pow_zero, Nat.mul_one, hplaces, Nat.mul_assoc, ← Nat.mul_pow]
  rw [hread, hten, Binary64.round_mul_self _ _ (Nat.pow_pos (by decide)), round_units]

/-- All digits of a magnitude read back. -/
theorem readsFrom_exactDecimal (m : Magnitude) : m.readsFrom m.exactDecimal = true := by
  have hread := m.ofDecimal_units 1074 unitsPerOne.eq_1
  exact decide_eq_true hread

/-- A decimal with its last digit at a given place is found among those that read back. -/
theorem readsFrom_of_decimalAt? {tie : TieRule} {m : Magnitude} {place : Int} {d : Decimal}
    (h : m.decimalAt? tie place = some d) : m.readsFrom d = true := by
  simp only [decimalAt?] at h
  split at h
  · next hbelow habove =>
    -- both neighbours read back, so it does not matter which of them is taken
    split at h
    · cases h
      exact hbelow
    · split at h
      · cases h
        exact habove
      · cases tie with
        | away =>
          cases h
          exact habove
        | even =>
          simp only at h
          split at h
          · cases h
            exact hbelow
          · cases h
            exact habove
  · next hbelow _ =>
    cases h
    exact hbelow
  · next _ habove =>
    cases h
    exact habove
  · cases h

/-- The shortest decimal of a magnitude reads back. -/
theorem readsFrom_shortest (tie : TieRule) (m : Magnitude) :
    m.readsFrom (m.shortest tie) = true := by
  rw [shortest]
  cases hfind : ((List.range 17).map fun count : Nat => m.leadingPlace - count).findSome?
      (m.decimalAt? tie) with
  | none => exact readsFrom_exactDecimal m
  | some d =>
    obtain ⟨place, -, hplace⟩ := List.exists_of_findSome?_eq_some hfind
    exact readsFrom_of_decimalAt? hplace

/-- The shortest decimal of a magnitude is rounded to it. -/
theorem ofDecimal_shortest (tie : TieRule) (m : Magnitude) :
    Binary64.ofDecimal false (m.shortest tie).significand (m.shortest tie).exponent =
      .finite false m :=
  of_decide_eq_true (readsFrom_shortest tie m)

end Magnitude

end Calculator
