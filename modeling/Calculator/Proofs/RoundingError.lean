import Calculator.Binary64.Bits
import Calculator.Proofs.NearestNumber

/-!
# Errors of several roundings

Each rounding is off by a small factor, and the factors of several operations multiply. At the end
the error is counted in words: how many magnitudes lie between the one that is meant and the one
that comes out.
-/

namespace Calculator

/-! ## Factors -/

/-- Two numbers are equal up to the factor `ρ`. -/
def Near (ρ a b : ℚ) : Prop :=
  a ≤ ρ * b ∧ b ≤ ρ * a

namespace Near

variable {ρ σ a b c d : ℚ}

/-- A number is equal to itself. -/
theorem refl (a : ℚ) : Near 1 a a :=
  ⟨(one_mul a).ge, (one_mul a).ge⟩

/-- The order of two numbers does not matter. -/
theorem symm (h : Near ρ a b) : Near ρ b a :=
  ⟨h.2, h.1⟩

/-- A larger factor is allowed. -/
theorem mono (h : Near ρ a b) (hρ : ρ ≤ σ) (ha : 0 ≤ a) (hb : 0 ≤ b) : Near σ a b :=
  ⟨h.1.trans (mul_le_mul_of_nonneg_right hρ hb), h.2.trans (mul_le_mul_of_nonneg_right hρ ha)⟩

/-- Factors multiply along a chain. -/
theorem trans (h : Near ρ a b) (h' : Near σ b c) (hρ : 0 ≤ ρ) (hσ : 0 ≤ σ) : Near (ρ * σ) a c := by
  constructor
  · calc a ≤ ρ * b := h.1
      _ ≤ ρ * (σ * c) := mul_le_mul_of_nonneg_left h'.1 hρ
      _ = ρ * σ * c := (mul_assoc _ _ _).symm
  · calc c ≤ σ * b := h'.2
      _ ≤ σ * (ρ * a) := mul_le_mul_of_nonneg_left h.2 hσ
      _ = ρ * σ * a := by ring

/-- The factors of a product multiply. -/
theorem mul (h : Near ρ a b) (h' : Near σ c d) (ha : 0 ≤ a) (hb : 0 ≤ b) (hc : 0 ≤ c) (hd : 0 ≤ d)
    (hρ : 0 ≤ ρ) : Near (ρ * σ) (a * c) (b * d) := by
  constructor
  · calc a * c ≤ ρ * b * (σ * d) := mul_le_mul h.1 h'.1 hc (mul_nonneg hρ hb)
      _ = ρ * σ * (b * d) := by ring
  · calc b * d ≤ ρ * a * (σ * c) := mul_le_mul h.2 h'.2 hd (mul_nonneg hρ ha)
      _ = ρ * σ * (a * c) := by ring

/-- A factor stays the same for the reciprocals. -/
theorem inv (h : Near ρ a b) (ha : 0 < a) (hb : 0 < b) : Near ρ a⁻¹ b⁻¹ := by
  constructor
  · rw [← div_eq_mul_inv, le_div_iff₀ hb, inv_mul_le_iff₀ ha]
    linarith [h.2]
  · rw [← div_eq_mul_inv, le_div_iff₀ ha, inv_mul_le_iff₀ hb]
    linarith [h.1]

/-- The factors of a quotient multiply. -/
theorem div (h : Near ρ a b) (h' : Near σ c d) (ha : 0 ≤ a) (hb : 0 ≤ b) (hc : 0 < c) (hd : 0 < d)
    (hρ : 0 ≤ ρ) : Near (ρ * σ) (a / c) (b / d) :=
  h.mul (h'.inv hc hd) ha hb (inv_nonneg.mpr hc.le) (inv_nonneg.mpr hd.le) hρ

/-- A common factor does not matter. -/
theorem mul_right (h : Near ρ a b) (hc : 0 ≤ c) : Near ρ (a * c) (b * c) := by
  constructor
  · calc a * c ≤ ρ * b * c := mul_le_mul_of_nonneg_right h.1 hc
      _ = ρ * (b * c) := mul_assoc _ _ _
  · calc b * c ≤ ρ * a * c := mul_le_mul_of_nonneg_right h.2 hc
      _ = ρ * (a * c) := mul_assoc _ _ _

/-- A factor near one bounds the distance. -/
theorem abs_sub_le (h : Near (1 + ρ) a b) : |a - b| ≤ ρ * min a b := by
  obtain ⟨hab, hba⟩ := h
  rw [one_add_mul] at hab hba
  rcases le_total a b with hle | hle
  · rw [min_eq_left hle, abs_sub_comm, abs_of_nonneg (sub_nonneg.mpr hle)]
    linarith
  · rw [min_eq_right hle, abs_of_nonneg (sub_nonneg.mpr hle)]
    linarith

end Near

/-! ## One rounding -/

namespace Magnitude

/-- The nearest magnitude is off by half of its last digit at most. -/
theorem abs_sub_le_of_nearest? {num den : Nat} (hden : 0 < den) {n : Magnitude}
    (h : nearest? num den = some n) : |(n.units : ℚ) - num / den| ≤ 2 ^ n.exponent / 2 := by
  have hdigit : (2 ^ exponentFor (num / den) : ℚ) ≤ 2 ^ n.exponent := by
    exact_mod_cast Nat.pow_le_pow_right (by decide) (units_of_nearest? h).2
  have hhalf := abs_sub_units_le_half hden h
  rw [abs_sub_comm]
  linarith

/-- A decimal is off from what it is read as by half of the last digit of that at most. -/
theorem abs_sub_le_of_ofDecimal {d : Decimal} {n : Magnitude}
    (h : Binary64.ofDecimal false d.significand d.exponent = .finite false n) :
    |(n.units : ℚ) - d.units| ≤ 2 ^ n.exponent / 2 := by
  obtain ⟨num, den, hden, hunits, hread⟩ := exists_quotient_eq_units d
  rw [← hunits]
  exact abs_sub_le_of_nearest? hden (nearest?_of_round (hread.symm.trans h))

/-- A quotient that is not too small is equal to its nearest magnitude up to a factor. -/
theorem near_of_nearest? {num den : Nat} (hden : 0 < den) {n : Magnitude}
    (h : nearest? num den = some n) {least : Nat} (hleast : 0 < least) (hmax : least ≤ 2 ^ 52)
    (hsize : den * least ≤ num) : Near (1 + 1 / (2 * least)) n.units (num / den) := by
  -- a last digit is small against the quotient and against its nearest magnitude
  have hquotient : den * 2 ^ exponentFor (num / den) * least ≤ num := by
    by_cases hzero : exponentFor (num / den) = 0
    · rwa [hzero, Nat.pow_zero, Nat.mul_one]
    · have hle := Nat.le_trans (Nat.mul_le_mul_right _ hmax) (two_pow_exponentFor_le hzero)
      rw [Nat.le_div_iff_mul_le hden] at hle
      linarith
  have hunits : least * 2 ^ exponentFor (num / den) ≤ n.units := by
    rw [(units_of_nearest? h).1]
    exact Nat.mul_le_mul_right _
      (le_roundHalfEven (Nat.mul_pos hden (Nat.two_pow_pos _)) hquotient)
  obtain ⟨hlow, hhigh⟩ := abs_le.mp (abs_sub_units_le_half hden h)
  have hden' : (0 : ℚ) < den := Nat.cast_pos.mpr hden
  have hleast' : (0 : ℚ) < least := Nat.cast_pos.mpr hleast
  generalize exponentFor (num / den) = e at hquotient hunits hlow hhigh
  have hquotient' : (least : ℚ) * 2 ^ e ≤ num / den := by
    rw [le_div_iff₀ hden']
    have hcast : (den * 2 ^ e * least : ℚ) ≤ num := by exact_mod_cast hquotient
    linarith
  have hunits' : (least : ℚ) * 2 ^ e ≤ n.units := by exact_mod_cast hunits
  have hfactor : ∀ x : ℚ, (least : ℚ) * 2 ^ e ≤ x → 2 ^ e / 2 ≤ 1 / (2 * least) * x := by
    intro x hx
    rw [one_div_mul_eq_div, le_div_iff₀ (by linarith)]
    linarith
  constructor
  · linarith [hfactor _ hquotient']
  · linarith [hfactor _ hunits']

end Magnitude

/-! ## Distance in words -/

/-- The word of a magnitude, which is its place among all of them in their order. -/
def Magnitude.word (m : Magnitude) : Nat :=
  m.exponent * 2 ^ 52 + m.significand

namespace Magnitude

/-- A lesser magnitude has no larger exponent. -/
theorem exponent_le_of_units_le {m n : Magnitude} (h : m.units ≤ n.units) :
    m.exponent ≤ n.exponent := by
  rw [← m.exponentFor_units, ← n.exponentFor_units]
  exact exponentFor_mono h

/-- Words are in the order of the magnitudes. -/
theorem word_le {m n : Magnitude} (h : m.units ≤ n.units) : m.word ≤ n.word := by
  have hm := m.canonical.1
  rw [word, word]
  rcases Nat.eq_or_lt_of_le (exponent_le_of_units_le h) with hsame | hless
  · rw [units, units, hsame] at h
    have hle := Nat.le_of_mul_le_mul_right h (Nat.two_pow_pos _)
    omega
  · have hn := n.canonical.2.2.resolve_left (by omega)
    omega

/-- Between two magnitudes every word is a last digit of the lesser one or more. -/
theorem word_mul_le {m n : Magnitude} (h : m.units ≤ n.units) :
    n.word * 2 ^ m.exponent + m.units ≤ n.units + m.word * 2 ^ m.exponent := by
  obtain ⟨j, hj⟩ := Nat.exists_eq_add_of_le (exponent_le_of_units_le h)
  -- a digit of the larger one is worth `2 ^ j` of the lesser one
  have hdigits : j * 2 ^ 52 + n.significand ≤ n.significand * 2 ^ j := by
    rcases Nat.eq_zero_or_pos j with rfl | hpos
    · rw [Nat.zero_mul, Nat.zero_add, Nat.pow_zero, Nat.mul_one]
    · have hbottom : 2 ^ 52 ≤ n.significand := n.canonical.2.2.resolve_left (by omega)
      have hpow : j + 1 ≤ 2 ^ j := Nat.lt_two_pow_self
      nlinarith
  rw [word, word, units, units, hj, Nat.pow_add 2 m.exponent j]
  nlinarith [Nat.mul_le_mul_right (2 ^ m.exponent) hdigits]

/-- Two magnitudes to which two numbers are rounded that are near each other are at most three words
apart. -/
theorem word_le_of_near {x r : Magnitude} {q p : ℚ} (hx : |x.units - q| ≤ 2 ^ x.exponent / 2)
    (hr : |r.units - p| ≤ 2 ^ r.exponent / 2) (hqp : |q - p| ≤ 12 / 5 / 2 ^ 53 * min q p)
    (hle : x.units ≤ r.units) : r.word ≤ x.word + 3 := by
  obtain ⟨hq, hq'⟩ := abs_le.mp hx
  obtain ⟨hp, hp'⟩ := abs_le.mp hr
  have hdistance := (abs_le.mp (hqp.trans (mul_le_mul_of_nonneg_left (min_le_left q p)
    (by norm_num)))).1
  have hunits := x.units_le
  have hword : (r.word * 2 ^ x.exponent + x.units : ℚ) ≤ r.units + x.word * 2 ^ x.exponent := by
    exact_mod_cast word_mul_le hle
  have hpos : (0 : ℚ) < 2 ^ x.exponent := by positivity
  -- the exponents are the same or differ by one, for else the numbers would be far apart
  have hstep : (2 : ℚ) ^ r.exponent ≤ 2 * 2 ^ x.exponent := by
    rw [← pow_succ']
    refine pow_le_pow_right₀ (by norm_num) (Nat.not_lt.mp fun hlt => ?_)
    have hbottom : (2 : ℚ) ^ 52 * 2 ^ r.exponent ≤ r.units := by
      have hnormal : 2 ^ 52 ≤ r.significand := r.canonical.2.2.resolve_left (by omega)
      exact_mod_cast Nat.mul_le_mul_right (2 ^ r.exponent) hnormal
    have hfar : (2 : ℚ) ^ (x.exponent + 2) ≤ 2 ^ r.exponent :=
      pow_le_pow_right₀ (by norm_num) hlt
    rw [pow_add] at hfar
    linarith
  refine Nat.lt_succ_iff.mp (Nat.cast_lt (α := ℚ).mp ?_)
  push_cast
  nlinarith

/-- Two magnitudes to which two numbers are rounded that are near each other are at most three words
apart, whichever of them is the larger one. -/
theorem word_near {x r : Magnitude} {q p : ℚ} (hx : |x.units - q| ≤ 2 ^ x.exponent / 2)
    (hr : |r.units - p| ≤ 2 ^ r.exponent / 2) (hqp : Near (1 + 12 / 5 / 2 ^ 53) q p) :
    r.word ≤ x.word + 3 ∧ x.word ≤ r.word + 3 := by
  rcases Nat.le_total x.units r.units with hle | hle
  · exact ⟨word_le_of_near hx hr hqp.abs_sub_le hle, Nat.le_add_right_of_le (word_le hle)⟩
  · exact ⟨Nat.le_add_right_of_le (word_le hle), word_le_of_near hr hx hqp.symm.abs_sub_le hle⟩

end Magnitude

end Calculator
