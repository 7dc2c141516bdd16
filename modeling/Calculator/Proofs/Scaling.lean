import Calculator.Json.Decode
import Calculator.Proofs.RoundingError
import Calculator.Proofs.WrittenNumbers

/-!
# Numbers that are scaled

A reader rounds the significand of a number, and then scales it by one multiplication with a power
of ten or by one or two divisions. Each of these steps rounds. So what comes out is the magnitude
nearest to a quotient that is not the number as it is written, but near to it.
-/

namespace Calculator

open Binary64 (unitsPerOne_pos)

/-! ## Whole numbers -/

/-- The largest magnitude. -/
def Magnitude.largest : Magnitude :=
  ⟨2 ^ 53 - 1, 2045, by decide⟩

namespace Binary64

/-- A whole number with no more than 53 digits in front of its zeros is a number. -/
theorem exists_ofNat_exact {s j : Nat} (hs : s < 2 ^ 53) (hj : j ≤ 971) :
    ∃ m, ofNat (s * 2 ^ j) = .finite false m ∧ m.units = s * 2 ^ j * unitsPerOne := by
  obtain ⟨places, hcount, hplaces⟩ := exists_unitsPerOne_eq
  obtain ⟨m, hm, hunits⟩ := Magnitude.exists_nearest?_exact hs (show j + places ≤ 2045 by omega)
  have hsplit : s * 2 ^ j * unitsPerOne = s * 2 ^ (j + places) := by
    rw [hplaces, Nat.pow_add, Nat.mul_assoc]
  rw [ofNat, hsplit]
  exact ⟨m, Magnitude.round_of_nearest? false hm, hunits⟩

/-- A significand of 53 digits is read as it is. -/
theorem exists_ofNat_eq {s : Nat} (hs : s < 2 ^ 53) :
    ∃ m, ofNat s = .finite false m ∧ m.units = s * unitsPerOne := by
  have hexact := exists_ofNat_exact hs (Nat.zero_le 971)
  rwa [Nat.pow_zero, Nat.mul_one] at hexact

/-- The first powers of ten are numbers. -/
theorem exists_ofNat_ten_pow_eq {k : Nat} (hk : k ≤ 22) :
    ∃ m, ofNat (10 ^ k) = .finite false m ∧ m.units = 10 ^ k * unitsPerOne := by
  have hfive : 5 ^ k < 2 ^ 53 :=
    Nat.lt_of_le_of_lt (Nat.pow_le_pow_right (by decide) hk) (by decide)
  rw [show 10 = 5 * 2 from rfl, Nat.mul_pow]
  exact exists_ofNat_exact hfive (by omega)

/-- A whole number of no more than 308 places is read up to one rounding. -/
theorem exists_ofNat_near {n k : Nat} (hpos : 0 < n) (hn : n ≤ 10 ^ k) (hk : k ≤ 308) :
    ∃ m, ofNat n = .finite false m ∧ Near (1 + 1 / 2 ^ 53) m.units (n * unitsPerOne) := by
  obtain ⟨top, htop, hlargest⟩ :
      ∃ top, 308 = top ∧ 10 ^ top * unitsPerOne ≤ Magnitude.largest.units :=
    ⟨308, rfl, by decide +kernel⟩
  rw [htop] at hk
  have hone : 2 ^ 52 ≤ unitsPerOne := by decide +kernel
  obtain ⟨m, hm⟩ := Magnitude.exists_nearest? Nat.one_pos
    ((Nat.mul_le_mul_right unitsPerOne (hn.trans (Nat.pow_le_pow_right (by decide) hk))).trans
      (hlargest.trans_eq (Nat.one_mul _).symm))
  have hsize : 1 * 2 ^ 52 ≤ n * unitsPerOne := by
    rw [Nat.one_mul]
    exact hone.trans (Nat.le_mul_of_pos_left _ hpos)
  have hnear := Magnitude.near_of_nearest? Nat.one_pos hm (Nat.two_pow_pos 52) (Nat.le_refl _) hsize
  have hfactor : 1 + 1 / (2 * ((2 ^ 52 : Nat) : ℚ)) = 1 + 1 / 2 ^ 53 := by norm_num
  rw [Nat.cast_one, div_one, Nat.cast_mul, hfactor] at hnear
  exact ⟨m, Magnitude.round_of_nearest? false hm, hnear⟩

/-- The power of ten by which small numbers are divided first is nearer than that, and the quotient
of one by it has at least `2 * 10 ^ 15` units. -/
theorem exists_ofNat_first_divisor :
    ∃ (k : Nat) (m : Magnitude), k = 308 ∧ ofNat (10 ^ k) = .finite false m ∧
      Near (1 + 1 / 2 ^ 56) m.units ((10 ^ k : Nat) * unitsPerOne) ∧ unitsPerOne ≤ m.units ∧
      m.units * (2 * 10 ^ 15) ≤ unitsPerOne * unitsPerOne := by
  let m : Magnitude := ⟨0x11ccf385ebc8a0, 2045, by decide⟩
  have hm : ofNat (10 ^ 308) = .finite false m := by decide +kernel
  have hlow : 2 ^ 56 * m.units ≤ (2 ^ 56 + 1) * (10 ^ 308 * unitsPerOne) := by decide +kernel
  have hhigh : 2 ^ 56 * (10 ^ 308 * unitsPerOne) ≤ (2 ^ 56 + 1) * m.units := by decide +kernel
  have hone : unitsPerOne ≤ m.units := by decide +kernel
  have hinverse : m.units * (2 * 10 ^ 15) ≤ unitsPerOne * unitsPerOne := by decide +kernel
  refine ⟨308, m, rfl, hm, ?_, hone, hinverse⟩
  rw [← Nat.cast_mul]
  generalize 10 ^ 308 * unitsPerOne = units at hlow hhigh
  have hlow' : (2 ^ 56 * m.units : ℚ) ≤ (2 ^ 56 + 1) * units := by exact_mod_cast hlow
  have hhigh' : (2 ^ 56 * units : ℚ) ≤ (2 ^ 56 + 1) * m.units := by exact_mod_cast hhigh
  constructor <;> linarith

end Binary64

/-! ## Scaling -/

/-- What a significand and an exponent are read as, without a sign. -/
def readSize? (significand : Nat) : Int → Option Binary64
  | .ofNat k => scaleUp? (.ofNat significand) k
  | .negSucc k => some (scaleDown (.ofNat significand) (k + 1))

/-- A number is read as its size with its sign. -/
theorem JsonNumber.value?_eq (n : JsonNumber) : n.value? =
    (readSize? n.parts.1 n.parts.2).map fun x => if n.negative then x.neg else x := by
  rw [value?]
  obtain ⟨significand, exponent⟩ := n.parts
  cases exponent with
  | ofNat k => rfl
  | negSucc k => rfl

/-- One or more is not zero. -/
theorem units_pos {m : Magnitude} (h : unitsPerOne ≤ m.units) : 0 < m.units :=
  Nat.lt_of_lt_of_le unitsPerOne_pos h

/-- One or more has a significand. -/
theorem significand_ne_zero_of_le {m : Magnitude} (h : unitsPerOne ≤ m.units) :
    m.significand ≠ 0 := by
  intro hzero
  have hpos := units_pos h
  rw [Magnitude.units, hzero, Nat.zero_mul] at hpos
  exact absurd hpos (Nat.lt_irrefl 0)

/-- The quotient of a magnitude by one or more is the magnitude nearest to it. -/
theorem Binary64.div_finite {m n r : Magnitude} (hn : unitsPerOne ≤ n.units)
    (h : Magnitude.nearest? (m.units * unitsPerOne) n.units = some r) :
    (finite false m).div (.finite false n) = .finite false r := by
  rw [div, if_neg (significand_ne_zero_of_le hn)]
  exact Magnitude.round_of_nearest? _ h

/-- A magnitude is scaled up by one multiplication. -/
theorem scaleUp?_eq {f t : Magnitude} {k : Nat} (hk : k ≤ 308)
    (ht : Binary64.ofNat (10 ^ k) = .finite false t) : scaleUp? (.finite false f) k =
      (Magnitude.nearest? (f.units * t.units) unitsPerOne).map (.finite false) := by
  have hproduct : (Binary64.finite false f).mul (.finite false t) =
      .round false (f.units * t.units) unitsPerOne := rfl
  simp only [scaleUp?, if_pos hk, ht, hproduct]
  unfold Binary64.round
  generalize Magnitude.nearest? (f.units * t.units) unitsPerOne = nearest
  cases nearest with
  | none => rfl
  | some r => rfl

/-- A magnitude is scaled down by one division. -/
theorem scaleDown_eq {f t r : Magnitude} {k : Nat} (hk : k ≤ 308)
    (ht : Binary64.ofNat (10 ^ k) = .finite false t) (hone : unitsPerOne ≤ t.units)
    (h : Magnitude.nearest? (f.units * unitsPerOne) t.units = some r) :
    scaleDown (.finite false f) k = .finite false r := by
  rw [scaleDown, if_pos hk, ht, Binary64.div_finite hone h]

/-- A magnitude is scaled down by two divisions. -/
theorem scaleDown_eq_scaleDown {f t g : Magnitude} {k : Nat} (hk : 308 < k)
    (hf : unitsPerOne ≤ f.units) (ht : Binary64.ofNat (10 ^ 308) = .finite false t)
    (hone : unitsPerOne ≤ t.units)
    (h : Magnitude.nearest? (f.units * unitsPerOne) t.units = some g) :
    scaleDown (.finite false f) k = scaleDown (.finite false g) (k - 308) := by
  have hzero : (Binary64.finite false f).isZero = false := by
    simpa [Binary64.isZero] using significand_ne_zero_of_le hf
  rw [scaleDown, if_neg (Nat.not_le.mpr hk), hzero, ht, Binary64.div_finite hone h]
  rfl

namespace Decimal

/-- The size of a decimal is not negative. -/
theorem units_nonneg (d : Decimal) : 0 ≤ d.units :=
  mul_nonneg (mul_nonneg (Nat.cast_nonneg _) (zpow_nonneg (by norm_num) _)) (Nat.cast_nonneg _)

/-- The size of a decimal with zeros in front of its point. -/
theorem units_natCast (s k : Nat) :
    units ⟨s, k⟩ = s * unitsPerOne * ((10 ^ k : Nat) * unitsPerOne) / unitsPerOne := by
  have hone : (unitsPerOne : ℚ) ≠ 0 := Nat.cast_ne_zero.mpr unitsPerOne_pos.ne'
  rw [units, zpow_natCast, Nat.cast_pow, Nat.cast_ofNat]
  field_simp

/-- The size of a decimal with places behind its point. -/
theorem units_neg_natCast (s k : Nat) :
    units ⟨s, -k⟩ = s * unitsPerOne * unitsPerOne / ((10 ^ k : Nat) * unitsPerOne) := by
  have hone : (unitsPerOne : ℚ) ≠ 0 := Nat.cast_ne_zero.mpr unitsPerOne_pos.ne'
  rw [units, zpow_neg, zpow_natCast, Nat.cast_pow, Nat.cast_ofNat]
  field_simp

end Decimal

section Factors

variable {f t g : Magnitude} {s k : Nat} {ρ σ τ : ℚ}

/-- The factors of a product by a power of ten. -/
theorem near_scaledUp (hρ : 0 ≤ ρ) (hf : Near ρ f.units (s * unitsPerOne))
    (ht : Near σ t.units ((10 ^ k : Nat) * unitsPerOne)) :
    Near (ρ * σ) ((f.units * t.units : Nat) / unitsPerOne) (Decimal.units ⟨s, k⟩) := by
  have hone : (0 : ℚ) < unitsPerOne := Nat.cast_pos.mpr unitsPerOne_pos
  rw [Decimal.units_natCast, div_eq_mul_inv, div_eq_mul_inv, Nat.cast_mul]
  generalize (unitsPerOne : ℚ) = one at *
  exact (hf.mul ht (by positivity) (by positivity) (by positivity) (by positivity) hρ).mul_right
    (by positivity)

/-- The factors of a quotient by a power of ten. -/
theorem near_scaledDown (hρ : 0 ≤ ρ) (hf : Near ρ f.units (s * unitsPerOne))
    (ht : Near σ t.units ((10 ^ k : Nat) * unitsPerOne)) (hpos : 0 < t.units) :
    Near (ρ * σ) ((f.units * unitsPerOne : Nat) / t.units) (Decimal.units ⟨s, -k⟩) := by
  have hone : (0 : ℚ) < unitsPerOne := Nat.cast_pos.mpr unitsPerOne_pos
  rw [Decimal.units_neg_natCast, Nat.cast_mul]
  generalize (unitsPerOne : ℚ) = one at *
  exact (hf.mul_right hone.le).div ht (by positivity) (by positivity) (Nat.cast_pos.mpr hpos)
    (by positivity) hρ

/-- The factors of a quotient that is divided by an exact power of ten once more. -/
theorem near_scaledDown_twice (hρ : 0 ≤ ρ) (hτ : 0 ≤ τ) {j : Nat} {t' : Magnitude}
    (hf : Near ρ ((f.units * unitsPerOne : Nat) / t.units) (Decimal.units ⟨s, -k⟩))
    (hg : Near τ g.units ((f.units * unitsPerOne : Nat) / t.units))
    (ht' : t'.units = 10 ^ j * unitsPerOne) :
    Near (τ * ρ) ((g.units * unitsPerOne : Nat) / t'.units)
      (Decimal.units ⟨s, -(k + j : Nat)⟩) := by
  have hone : (unitsPerOne : ℚ) ≠ 0 := Nat.cast_ne_zero.mpr unitsPerOne_pos.ne'
  have hquotient : ((g.units * unitsPerOne : Nat) : ℚ) / t'.units =
      g.units * ((10 ^ j : Nat) : ℚ)⁻¹ := by
    rw [ht', Nat.cast_mul, Nat.cast_mul, mul_div_mul_right _ _ hone, div_eq_mul_inv]
  have hunits : Decimal.units ⟨s, -(k + j : Nat)⟩ =
      Decimal.units ⟨s, -k⟩ * ((10 ^ j : Nat) : ℚ)⁻¹ := by
    rw [Decimal.units_neg_natCast, Decimal.units_neg_natCast, Nat.pow_add, Nat.cast_mul]
    field_simp
  rw [hquotient, hunits]
  exact (hg.trans hf hτ hρ).mul_right (by positivity)

end Factors

/-- What is near to so many ones or more has at least half as many units. -/
theorem Near.mul_le {m : Magnitude} {n c : Nat} {ρ : ℚ} (h : Near ρ m.units (n * unitsPerOne))
    (hρ : ρ ≤ 2) (hn : 2 * c ≤ n) : c * unitsPerOne ≤ m.units := by
  have hone : (0 : ℚ) ≤ unitsPerOne := Nat.cast_nonneg _
  have hunits : (0 : ℚ) ≤ m.units := Nat.cast_nonneg _
  have hn' : (2 * c : ℚ) ≤ n := by exact_mod_cast hn
  have hle : (c * unitsPerOne : ℚ) ≤ m.units := by
    have hlow := mul_le_mul_of_nonneg_right hn' hone
    have hhigh := h.2.trans (mul_le_mul_of_nonneg_right hρ hunits)
    linarith
  exact_mod_cast hle

/-- A quotient of a magnitude by one or more has a nearest magnitude. -/
theorem exists_nearest?_quotient {f t : Magnitude} (ht : unitsPerOne ≤ t.units) :
    ∃ r, Magnitude.nearest? (f.units * unitsPerOne) t.units = some r := by
  refine Magnitude.exists_nearest? (Nat.lt_of_lt_of_le unitsPerOne_pos ht) (m := f) ?_
  rw [Nat.mul_comm]
  exact Nat.mul_le_mul_right _ ht

/-! ## Significands -/

/-- A significand is read as the magnitude `f`, which is equal to it up to the factor `ρ`, and
exactly where it has no more than 53 digits. -/
structure ReadFactor (s : Nat) (f : Magnitude) (ρ : ℚ) : Prop where
  ofNat_eq : Binary64.ofNat s = .finite false f
  one_le : unitsPerOne ≤ f.units
  near : Near ρ f.units (s * unitsPerOne)
  factor_eq : s < 2 ^ 53 ∧ ρ = 1 ∨ 2 ^ 53 ≤ s ∧ ρ = 1 + 1 / 2 ^ 53

/-- A significand is read as a magnitude. -/
theorem exists_readFactor {s k : Nat} (hpos : 0 < s) (hs : s ≤ 10 ^ k) (hk : k ≤ 308) :
    ∃ f ρ, ReadFactor s f ρ := by
  rcases Nat.lt_or_ge s (2 ^ 53) with hsmall | hlarge
  · obtain ⟨f, hf, hunits⟩ := Binary64.exists_ofNat_eq hsmall
    refine ⟨f, 1, hf, hunits ▸ Nat.le_mul_of_pos_left _ hpos, ?_, .inl ⟨hsmall, rfl⟩⟩
    rw [hunits, Nat.cast_mul]
    exact Near.refl _
  · obtain ⟨f, hf, hnear⟩ := Binary64.exists_ofNat_near hpos hs hk
    have hone := hnear.mul_le (c := 1) (by norm_num) (Nat.le_trans (by decide) hlarge)
    rw [Nat.one_mul] at hone
    exact ⟨f, _, hf, hone, hnear, .inr ⟨hlarge, rfl⟩⟩

/-- The largest factor by which the last quotient is off before it is rounded. -/
def lastFactor : ℚ :=
  1 + 12 / 5 / 2 ^ 53

namespace ReadFactor

variable {s : Nat} {f t : Magnitude} {ρ : ℚ}

/-- The factor of a significand is not negative. -/
theorem factor_nonneg (h : ReadFactor s f ρ) : 0 ≤ ρ := by
  rcases h.factor_eq with ⟨-, rfl⟩ | ⟨-, rfl⟩ <;> norm_num

/-- A significand and a power of ten may both be rounded. -/
theorem mul_factor_le (h : ReadFactor s f ρ) : ρ * (1 + 1 / 2 ^ 53) ≤ lastFactor := by
  rcases h.factor_eq with ⟨-, rfl⟩ | ⟨-, rfl⟩ <;> norm_num [lastFactor]

/-- The quotient of a significand by the power of ten by which small numbers are divided first. What
is lost in the digits of the significand is gained in those of the quotient. -/
theorem exists_first_quotient (h : ReadFactor s f ρ) (ht : unitsPerOne ≤ t.units)
    (hsize : t.units * (2 * 10 ^ 15) ≤ unitsPerOne * unitsPerOne) :
    ∃ (g : Magnitude) (τ : ℚ), Magnitude.nearest? (f.units * unitsPerOne) t.units = some g ∧
      Near τ g.units ((f.units * unitsPerOne : Nat) / t.units) ∧ 0 ≤ τ ∧
      τ * (ρ * (1 + 1 / 2 ^ 56)) ≤ lastFactor := by
  obtain ⟨g, hg⟩ := exists_nearest?_quotient ht (f := f)
  rcases h.factor_eq with ⟨-, rfl⟩ | ⟨hlarge, rfl⟩
  · have hleast : t.units * (2 * 10 ^ 15) ≤ f.units * unitsPerOne :=
      hsize.trans (Nat.mul_le_mul_right _ h.one_le)
    have hnear := Magnitude.near_of_nearest? (units_pos ht) hg (by decide) (by decide) hleast
    exact ⟨g, _, hg, hnear, by positivity, by norm_num [lastFactor]⟩
  · have hunits := h.near.mul_le (c := 2 ^ 52) (by norm_num) hlarge
    have hleast : t.units * 2 ^ 52 ≤ f.units * unitsPerOne :=
      calc t.units * 2 ^ 52 ≤ t.units * (2 * 10 ^ 15) * 2 ^ 52 :=
            Nat.mul_le_mul_right _ (Nat.le_mul_of_pos_right _ (by decide))
        _ ≤ unitsPerOne * unitsPerOne * 2 ^ 52 := Nat.mul_le_mul_right _ hsize
        _ = 2 ^ 52 * unitsPerOne * unitsPerOne := by ring
        _ ≤ f.units * unitsPerOne := Nat.mul_le_mul_right _ hunits
    have hnear := Magnitude.near_of_nearest? (units_pos ht) hg (Nat.two_pow_pos 52) (Nat.le_refl _)
      hleast
    exact ⟨g, _, hg, hnear, by positivity, by norm_num [lastFactor]⟩

end ReadFactor

/-! ## The last rounding -/

/-- What a significand and an exponent are read as is the magnitude nearest to a quotient that is
near to what they denote. -/
structure ReadQuotient (s : Nat) (e : Int) (num den : Nat) : Prop where
  den_pos : 0 < den
  readSize?_eq : readSize? s e = (Magnitude.nearest? num den).map (.finite false)
  near : Near lastFactor (num / den) (Decimal.units ⟨s, e⟩)

namespace ReadFactor

variable {s k j : Nat} {f : Magnitude} {ρ : ℚ}

/-- The quotient is near enough if its factor is small enough. -/
theorem near_lastFactor {σ : ℚ} {num den : Nat} {d : Decimal} (h : Near σ (num / den) d.units)
    (hσ : σ ≤ lastFactor) : Near lastFactor (num / den) d.units :=
  h.mono hσ (div_nonneg (Nat.cast_nonneg _) (Nat.cast_nonneg _)) d.units_nonneg

/-- Large numbers are read by one multiplication. -/
theorem exists_readQuotient_up (h : ReadFactor s f ρ) (hk : k ≤ 308) :
    ∃ num den, ReadQuotient s (.ofNat k) num den := by
  obtain ⟨t, ht, hnear⟩ := Binary64.exists_ofNat_near (Nat.pow_pos (by decide)) (Nat.le_refl _) hk
  refine ⟨f.units * t.units, unitsPerOne, unitsPerOne_pos, ?_, ?_⟩
  · rw [readSize?, h.ofNat_eq, scaleUp?_eq hk ht]
  · exact near_lastFactor (near_scaledUp h.factor_nonneg h.near hnear) h.mul_factor_le

/-- Numbers that are not too small are read by one division. -/
theorem exists_readQuotient_down (h : ReadFactor s f ρ) (hj : j + 1 ≤ 308) :
    ∃ num den, ReadQuotient s (.negSucc j) num den := by
  obtain ⟨t, ht, hnear⟩ :=
    Binary64.exists_ofNat_near (Nat.pow_pos (by decide)) (Nat.le_refl (10 ^ (j + 1))) hj
  have hone : unitsPerOne ≤ t.units := by
    have hten : 2 * 1 ≤ 10 ^ (j + 1) :=
      Nat.le_trans (by decide) (Nat.le_self_pow (Nat.succ_ne_zero j) 10)
    have hle := hnear.mul_le (by norm_num) hten
    rwa [Nat.one_mul] at hle
  obtain ⟨r, hr⟩ := exists_nearest?_quotient hone (f := f)
  refine ⟨f.units * unitsPerOne, t.units, units_pos hone, ?_, ?_⟩
  · rw [readSize?, h.ofNat_eq, scaleDown_eq hj ht hone hr, hr]
    rfl
  · have hquotient := near_scaledDown h.factor_nonneg h.near hnear (units_pos hone)
    exact near_lastFactor hquotient h.mul_factor_le

/-- Small numbers are read by two divisions, and the power of ten of the second is read as it is. -/
theorem exists_readQuotient_down_twice (h : ReadFactor s f ρ) (hj : 308 < j + 1)
    (hmax : j + 1 ≤ 330) : ∃ num den, ReadQuotient s (.negSucc j) num den := by
  obtain ⟨i, hi⟩ := Nat.exists_eq_add_of_le hj.le
  obtain ⟨k, t, hk, ht, htnear, hone, hsize⟩ := Binary64.exists_ofNat_first_divisor
  obtain ⟨t', ht', hunits'⟩ := Binary64.exists_ofNat_ten_pow_eq (k := i) (by omega)
  obtain ⟨g, τ, hg, hgnear, hτ0, hτ⟩ := h.exists_first_quotient hone hsize
  have hone' : unitsPerOne ≤ t'.units := by
    rw [hunits']
    exact Nat.le_mul_of_pos_left _ (Nat.pow_pos (by decide))
  obtain ⟨r, hr⟩ := exists_nearest?_quotient hone' (f := g)
  refine ⟨g.units * unitsPerOne, t'.units, units_pos hone', ?_, ?_⟩
  · have hfirst := scaleDown_eq_scaleDown hj h.one_le (hk ▸ ht) hone hg
    rw [hi, Nat.add_sub_cancel_left, scaleDown_eq (by omega) ht' hone' hr, ← hi] at hfirst
    rw [readSize?, h.ofNat_eq, hfirst, hr]
    rfl
  · have hρ := h.factor_nonneg
    have hnear := near_scaledDown_twice (mul_nonneg hρ (by norm_num)) hτ0
      (near_scaledDown hρ h.near htnear (units_pos hone)) hgnear hunits'
    rw [← hk] at hi
    rw [← hi] at hnear
    exact near_lastFactor hnear hτ

end ReadFactor

/-- A significand and an exponent are read by one rounding at the end. -/
theorem exists_readQuotient {s : Nat} {e : Int} (hs : s ≠ 0) (hbound : s ≤ 10 ^ 17)
    (hlow : -324 ≤ e) (hhigh : e ≤ 308) : ∃ num den, ReadQuotient s e num den := by
  obtain ⟨f, ρ, h⟩ := exists_readFactor (Nat.pos_of_ne_zero hs) hbound (by decide)
  cases e with
  | ofNat k => exact h.exists_readQuotient_up (Int.ofNat_le.mp hhigh)
  | negSucc j =>
    rcases Nat.lt_or_ge 308 (j + 1) with hmany | hfew
    · exact h.exists_readQuotient_down_twice hmany (by omega)
    · exact h.exists_readQuotient_down hfew

/-- A significand of 53 digits and one of the first powers of ten are read as the number nearest to
what they denote. -/
theorem readSize?_eq_ofDecimal {s : Nat} {e : Int} (hs : s < 2 ^ 53) (hlow : -22 ≤ e)
    (hhigh : e ≤ 22) {m : Magnitude} (h : Binary64.ofDecimal false s e = .finite false m) :
    readSize? s e = some (.finite false m) := by
  obtain ⟨f, hf, hfunits⟩ := Binary64.exists_ofNat_eq hs
  cases e with
  | ofNat k =>
    have hk : k ≤ 22 := Int.ofNat_le.mp hhigh
    obtain ⟨t, ht, htunits⟩ := Binary64.exists_ofNat_ten_pow_eq hk
    have hnearest : Magnitude.nearest? (f.units * t.units) unitsPerOne = some m := by
      have hproduct : f.units * t.units = s * 10 ^ k * unitsPerOne * unitsPerOne := by
        rw [hfunits, htunits, Nat.mul_mul_mul_comm, Nat.mul_assoc (s * 10 ^ k)]
      have hm : Magnitude.nearest? (s * 10 ^ k * unitsPerOne) 1 = some m :=
        Magnitude.nearest?_of_round h
      rw [← hm, ← Magnitude.nearest?_mul_right _ 1 unitsPerOne_pos, Nat.one_mul, hproduct]
    rw [readSize?, hf, scaleUp?_eq (hk.trans (by decide)) ht, hnearest]
    rfl
  | negSucc j =>
    have hj : j + 1 ≤ 22 := by omega
    obtain ⟨t, ht, htunits⟩ := Binary64.exists_ofNat_ten_pow_eq hj
    have hone : unitsPerOne ≤ t.units := by
      rw [htunits]
      exact Nat.le_mul_of_pos_left _ (Nat.pow_pos (by decide))
    have hnearest : Magnitude.nearest? (f.units * unitsPerOne) t.units = some m := by
      have hm : Magnitude.nearest? (s * unitsPerOne) (10 ^ (j + 1)) = some m :=
        Magnitude.nearest?_of_round h
      rw [← hm, ← Magnitude.nearest?_mul_right _ (10 ^ (j + 1)) unitsPerOne_pos, hfunits, htunits]
    rw [readSize?, hf, scaleDown_eq (hj.trans (by decide)) ht hone hnearest]

end Calculator
