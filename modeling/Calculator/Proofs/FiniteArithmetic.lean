import Calculator.Evaluation
import Calculator.Proofs.RoundingBounds

/-!
# Arithmetic on finite numbers

Sums, products, quotients and powers of finite numbers are numbers or infinities, except for
quotients by zero and for powers of negative numbers to exponents that are not whole. Whole numbers
nearest to finite ones are finite, and so are remainders.
-/

namespace Calculator

namespace Binary64

/-! ## Results of rounding -/

/-- Rounding gives a finite number or an infinity. -/
theorem round_ne_nan (negative : Bool) (num den : Nat) : round negative num den ≠ .nan := by
  unfold round
  intro h
  split at h <;> cases h

/-- A whole number of units that does not exceed a magnitude is rounded to a finite number. -/
theorem exists_round_eq (negative : Bool) {units : Nat} {m : Magnitude} (h : units ≤ m.units) :
    ∃ n, round negative units 1 = .finite negative n := by
  have hle : units ≤ 1 * m.units := by omega
  obtain ⟨n, hn⟩ := Magnitude.exists_nearest? Nat.one_pos hle
  refine ⟨n, ?_⟩
  unfold round
  rw [hn]

/-! ## Sums, products and quotients -/

/-- A sum of finite numbers is a number or an infinity. -/
theorem add_ne_nan {x y : Binary64} (hx : x.isFinite = true) (hy : y.isFinite = true) :
    x.add y ≠ .nan := by
  cases x with
  | finite a m =>
    cases y with
    | finite b n =>
      rw [add]
      split
      · exact round_ne_nan _ _ _
      · split
        · exact nofun
        · split <;> exact round_ne_nan _ _ _
    | infinite => cases hy
    | nan => cases hy
  | infinite => cases hx
  | nan => cases hx

/-- The other sign keeps a number finite. -/
theorem isFinite_neg (x : Binary64) : x.neg.isFinite = x.isFinite := by
  cases x <;> rfl

/-- A product of finite numbers is a number or an infinity. -/
theorem mul_ne_nan {x y : Binary64} (hx : x.isFinite = true) (hy : y.isFinite = true) :
    x.mul y ≠ .nan := by
  cases x with
  | finite a m =>
    cases y with
    | finite b n =>
      rw [mul]
      exact round_ne_nan _ _ _
    | infinite => cases hy
    | nan => cases hy
  | infinite => cases hx
  | nan => cases hx

/-- A quotient of finite numbers is a number or an infinity, if the divisor is not zero. -/
theorem div_ne_nan {x y : Binary64} (hx : x.isFinite = true) (hy : y.isFinite = true)
    (hzero : y.isZero = false) : x.div y ≠ .nan := by
  cases x with
  | finite a m =>
    cases y with
    | finite b n =>
      have hne : n.significand ≠ 0 := by simpa [isZero] using hzero
      rw [div, if_neg hne]
      exact round_ne_nan _ _ _
    | infinite => cases hy
    | nan => cases hy
  | infinite => cases hx
  | nan => cases hx

/-! ## Whole numbers and remainders -/

/-- The units of one are a power of two. -/
theorem exists_unitsPerOne_eq : ∃ places, places = 1074 ∧ unitsPerOne = 2 ^ places :=
  ⟨1074, rfl, unitsPerOne.eq_1⟩

/-- One has units. -/
theorem unitsPerOne_pos : 0 < unitsPerOne := by
  obtain ⟨places, -, hplaces⟩ := exists_unitsPerOne_eq
  rw [hplaces]
  exact Nat.two_pow_pos places

/-- One half. -/
def half : Binary64 :=
  .finite false ⟨2 ^ 52, 1021, by decide⟩

/-- Whole numbers up to 2⁵³ are magnitudes. -/
theorem exists_units_eq {k : Nat} (hk : k ≤ 2 ^ 53) :
    ∃ m : Magnitude, m.units = k * unitsPerOne := by
  obtain ⟨places, hcount, hplaces⟩ := exists_unitsPerOne_eq
  rw [hplaces]
  rcases Nat.lt_or_ge k (2 ^ 53) with hlt | hge
  · obtain ⟨m, -, hunits⟩ := Magnitude.exists_nearest?_exact hlt (show places ≤ 2045 by omega)
    exact ⟨m, hunits⟩
  · obtain ⟨m, -, hunits⟩ := Magnitude.exists_nearest?_exact (show 2 ^ 52 < 2 ^ 53 by decide)
      (show places + 1 ≤ 2045 by omega)
    refine ⟨m, ?_⟩
    rw [hunits, Nat.le_antisymm hk hge, ← Nat.pow_add, ← Nat.pow_add]
    exact congrArg (2 ^ ·) (show 52 + (places + 1) = 53 + places by omega)

/-- The number of ones that a number is rounded to is a magnitude. -/
theorem exists_ones_eq (m : Magnitude) : ∃ k : Magnitude,
    k.units = (2 * m.units + unitsPerOne) / (2 * unitsPerOne) * unitsPerOne := by
  obtain ⟨places, hcount, hplaces⟩ := exists_unitsPerOne_eq
  have hone := unitsPerOne_pos
  have htwo : 0 < 2 * unitsPerOne := by omega
  rcases Nat.lt_or_ge m.exponent 1074 with hlt | hge
  · -- a number below 2⁵³ stays below it or reaches it
    refine exists_units_eq (Nat.le_of_lt_succ ((Nat.div_lt_iff_lt_mul htwo).mpr ?_))
    have hlow : m.units < 2 ^ 53 * unitsPerOne := calc
      m.units < 2 ^ 53 * 2 ^ m.exponent :=
        (Nat.mul_lt_mul_right (Nat.two_pow_pos _)).mpr m.canonical.1
      _ ≤ 2 ^ 53 * unitsPerOne := by
        rw [hplaces]
        exact Nat.mul_le_mul_left _ (Nat.pow_le_pow_right (by decide) (by omega))
    rw [Nat.succ_mul]
    omega
  · -- a number from 2⁵² on is whole already
    refine ⟨m, ?_⟩
    have hdvd : unitsPerOne ∣ m.units := by
      rw [hplaces]
      exact Nat.dvd_trans (Nat.pow_dvd_pow 2 (by omega)) (Nat.dvd_mul_left _ _)
    obtain ⟨k, hk⟩ := hdvd
    have hsame : (2 * m.units + unitsPerOne) / (2 * unitsPerOne) = k := by
      rw [hk, show 2 * (unitsPerOne * k) = 2 * unitsPerOne * k by rw [Nat.mul_assoc],
        Nat.mul_add_div htwo, Nat.div_eq_of_lt (by omega), Nat.add_zero]
    rw [hsame, hk, Nat.mul_comm]

/-- A finite number is rounded to the finite whole number of the same sign that is the nearest, and
away from zero from a half on. -/
theorem exists_roundHalfAway (negative : Bool) (m : Magnitude) :
    ∃ (n : Magnitude) (ones : Nat), (finite negative m).roundHalfAway = .finite negative n ∧
      n.units = ones * unitsPerOne ∧ 2 * (ones * unitsPerOne) ≤ 2 * m.units + unitsPerOne ∧
      2 * m.units < 2 * (ones * unitsPerOne) + unitsPerOne := by
  obtain ⟨n, hn⟩ := exists_ones_eq m
  have htwo : 0 < 2 * unitsPerOne := Nat.mul_pos Nat.two_pos unitsPerOne_pos
  have hdiv := Nat.div_add_mod (2 * m.units + unitsPerOne) (2 * unitsPerOne)
  have hmod := Nat.mod_lt (2 * m.units + unitsPerOne) htwo
  refine ⟨n, (2 * m.units + unitsPerOne) / (2 * unitsPerOne), ?_, hn, ?_, ?_⟩
  · rw [roundHalfAway, ← hn, Magnitude.round_units]
  · rw [Nat.mul_comm _ unitsPerOne, ← Nat.mul_assoc]
    omega
  · rw [Nat.mul_comm _ unitsPerOne, ← Nat.mul_assoc]
    omega

/-- A finite number is rounded to a finite whole number. -/
theorem isFinite_roundHalfAway {x : Binary64} (hx : x.isFinite = true) :
    x.roundHalfAway.isFinite = true := by
  cases x with
  | finite a m =>
    obtain ⟨n, -, hround, -⟩ := exists_roundHalfAway a m
    rw [hround]
    rfl
  | infinite => cases hx
  | nan => cases hx

/-- Less than one half is less than half of the units of one. -/
theorem abs_lt_half_iff (negative : Bool) (m : Magnitude) :
    (finite negative m).abs.lt half = true ↔ 2 * m.units < unitsPerOne := by
  have hunits : 2 * Magnitude.units ⟨2 ^ 52, 1021, by decide⟩ = unitsPerOne := by
    obtain ⟨places, hcount, hplaces⟩ := exists_unitsPerOne_eq
    rw [hplaces, Magnitude.units, ← Nat.pow_add, ← Nat.pow_succ']
    exact congrArg (2 ^ ·) (show 52 + 1021 + 1 = places by omega)
  simp only [abs, half, lt, decide_eq_true_eq, Magnitude.signed, Bool.false_eq_true, if_false]
  omega

/-- A divisor is rounded to zero exactly where it is less than one half. -/
theorem isZero_roundHalfAway {y : Binary64} (hy : y.isFinite = true) :
    y.roundHalfAway.isZero = y.abs.lt half := by
  cases y with
  | finite b n =>
    obtain ⟨k, ones, hround, hk, hle, hlt⟩ := exists_roundHalfAway b n
    have hone := unitsPerOne_pos
    rw [hround, Bool.eq_iff_iff, abs_lt_half_iff, isZero, beq_iff_eq, ← k.units_eq_zero_iff, hk]
    constructor
    · intro hzero
      omega
    · intro hsmall
      rcases Nat.eq_zero_or_pos ones with rfl | hpos
      · exact Nat.zero_mul _
      · have hmul := Nat.mul_le_mul_right unitsPerOne hpos
        omega
  | infinite => cases hy
  | nan => cases hy

/-- A number of units with no more than 53 digits above some exponent is a magnitude. -/
theorem exists_units_of_dvd {units e : Nat} (he : e ≤ 2045) (hdvd : 2 ^ e ∣ units)
    (hlt : units < 2 ^ 53 * 2 ^ e) : ∃ m : Magnitude, m.units = units := by
  obtain ⟨k, rfl⟩ := hdvd
  rw [Nat.mul_comm] at hlt ⊢
  obtain ⟨m, -, hunits⟩ :=
    Magnitude.exists_nearest?_exact (Nat.lt_of_mul_lt_mul_right hlt) he
  exact ⟨m, hunits⟩

/-- A remainder of finite numbers is exact. -/
theorem exists_rem_eq (a b : Bool) (m : Magnitude) {n : Magnitude} (hn : n.significand ≠ 0) :
    ∃ r : Magnitude, (finite a m).rem (.finite b n) = .finite a r ∧
      r.units = m.units % n.units := by
  have hpos : 0 < n.units := Nat.pos_of_ne_zero fun h => hn (n.units_eq_zero_iff.mp h)
  have hlow : ∀ k : Magnitude, k.units < 2 ^ 53 * 2 ^ k.exponent := fun k =>
    (Nat.mul_lt_mul_right (Nat.two_pow_pos _)).mpr k.canonical.1
  have hdvd : ∀ (k : Magnitude) {e : Nat}, e ≤ k.exponent → 2 ^ e ∣ k.units := fun k e he =>
    Nat.dvd_trans (Nat.pow_dvd_pow 2 he) (Nat.dvd_mul_left _ _)
  obtain ⟨r, hr⟩ : ∃ r : Magnitude, r.units = m.units % n.units := by
    -- the digits of the remainder lie between the last digit of both and the first one of one
    rcases Nat.le_total m.exponent n.exponent with hle | hle
    · refine exists_units_of_dvd m.canonical.2.1 ?_
        (Nat.lt_of_le_of_lt (Nat.mod_le _ _) (hlow m))
      exact (Nat.dvd_mod_iff (hdvd n hle)).mpr (hdvd m (Nat.le_refl _))
    · refine exists_units_of_dvd n.canonical.2.1 ?_ (Nat.lt_trans (Nat.mod_lt _ hpos) (hlow n))
      exact (Nat.dvd_mod_iff (hdvd n (Nat.le_refl _))).mpr (hdvd m hle)
  refine ⟨r, ?_, hr⟩
  rw [rem, if_neg hn, ← hr, Magnitude.round_units]

/-- A sum of numbers with different signs does not exceed both of them, so it is finite. -/
theorem isFinite_add_of_ne {a b : Bool} (h : a ≠ b) (m n : Magnitude) :
    ((finite a m).add (.finite b n)).isFinite = true := by
  rw [add, if_neg h]
  split
  · rfl
  · split
    · obtain ⟨k, hk⟩ := exists_round_eq a (Nat.sub_le m.units n.units)
      rw [hk]
      rfl
    · obtain ⟨k, hk⟩ := exists_round_eq b (Nat.sub_le n.units m.units)
      rw [hk]
      rfl

end Binary64

/-- A remainder by a number that is not zero is finite. -/
theorem isFinite_flooredRemainder {x y : Binary64} (hx : x.isFinite = true)
    (hy : y.isFinite = true) (hzero : y.isZero = false) :
    (flooredRemainder x y).isFinite = true := by
  cases x with
  | finite a m =>
    cases y with
    | finite b n =>
      have hne : n.significand ≠ 0 := by simpa [Binary64.isZero] using hzero
      obtain ⟨r, hrem, -⟩ := Binary64.exists_rem_eq a b m hne
      -- the divisor is added only to a remainder of the other sign
      have hadd : ((!(Binary64.finite a r).isZero &&
          (Binary64.finite a r).isBelowZero != (Binary64.finite b n).isBelowZero) = true) →
          ((Binary64.finite a r).add (.finite b n)).isFinite = true := by
        intro hsign
        apply Binary64.isFinite_add_of_ne
        rintro rfl
        simp only [Binary64.isZero, Binary64.isBelowZero, Bool.and_eq_true, Bool.not_eq_true',
          beq_eq_false_iff_ne, bne_iff_ne] at hsign
        have hnonzero : ∀ k : Magnitude, k.significand ≠ 0 → (k.significand != 0) = true :=
          fun k hk => bne_iff_ne.mpr hk
        rw [hnonzero r hsign.1, hnonzero n hne] at hsign
        exact hsign.2 rfl
      rw [flooredRemainder, hrem]
      split
      · split
        · rfl
        · next hsign _ => exact hadd hsign
      · split <;> rfl
    | infinite => cases hy
    | nan => cases hy
  | infinite => cases hx
  | nan => cases hx

namespace Binary64

/-! ## Powers -/

theorem roundShifted_ne_nan (negative : Bool) (num den : Nat) (shift : Int) :
    roundShifted negative num den shift ≠ .nan := by
  rw [roundShifted]
  split <;> exact round_ne_nan _ _ _

theorem powerOfTwo_ne_nan (negative : Bool) (exponent : Int) :
    powerOfTwo negative exponent ≠ .nan := by
  rw [powerOfTwo]
  split
  · exact nofun
  · split
    · exact nofun
    · exact roundShifted_ne_nan _ _ _ _

theorem exactPower_ne_nan (negative : Bool) (units exponent : Nat) (inverse : Bool) :
    exactPower negative units exponent inverse ≠ .nan := by
  rw [exactPower]
  split <;> exact round_ne_nan _ _ _

/-- The lower one of two bounds is a number or an infinity. -/
theorem powerBounds_ne_nan (negative : Bool) (units : Nat) (exponent : Int) (p : Nat) :
    (powerBounds negative units exponent p).1 ≠ .nan := by
  simp only [powerBounds]
  split
  · exact nofun
  · split
    · exact nofun
    · exact roundShifted_ne_nan _ _ _ _

theorem enclosedPower_ne_nan (negative : Bool) (units : Nat) (exponent : Int) :
    enclosedPower negative units exponent ≠ .nan := by
  rw [enclosedPower]
  cases hfind : [256, 512].findSome? (powerAt? negative units exponent) with
  | none => exact powerBounds_ne_nan _ _ _ _
  | some x =>
    obtain ⟨p, -, hp⟩ := List.exists_of_findSome?_eq_some hfind
    simp only [powerAt?] at hp
    split at hp
    · cases hp
      exact powerBounds_ne_nan _ _ _ _
    · cases hp

theorem seriesPower_ne_nan (negative : Bool) (units : Nat) (exponent : Int) :
    seriesPower negative units exponent ≠ .nan := by
  rw [seriesPower]
  split
  · split <;> exact nofun
  · exact enclosedPower_ne_nan _ _ _

/-- A power of a positive number is a number or an infinity. -/
theorem positivePower_ne_nan (negative : Bool) (units : Nat) (exponent : Int) :
    positivePower negative units exponent ≠ .nan := by
  simp only [positivePower]
  split
  · exact round_ne_nan _ _ _
  · split
    · exact exactPower_ne_nan _ _ _ _
    · split
      · exact powerOfTwo_ne_nan _ _
      · split
        · exact roundShifted_ne_nan _ _ _ _
        · exact seriesPower_ne_nan _ _ _
      · exact seriesPower_ne_nan _ _ _

/-- A power of finite numbers is a number or an infinity, unless a negative number is raised to a
power that is not whole. -/
theorem pow_ne_nan {x y : Binary64} (hx : x.isFinite = true) (hy : y.isFinite = true)
    (h : x.isBelowZero = true → y.isIntegral = true) : x.pow y ≠ .nan := by
  cases x with
  | finite a m =>
    cases y with
    | finite b n =>
      rw [pow]
      split
      · exact round_ne_nan _ _ _
      · split
        · split <;> exact nofun
        · next hzero =>
          rw [if_neg]
          · exact positivePower_ne_nan _ _ _
          · intro hsign
            rw [Bool.and_eq_true, Bool.not_eq_true'] at hsign
            have hbelow : (finite a m).isBelowZero = true := by
              simp [isBelowZero, hsign.1, hzero]
            rw [h hbelow] at hsign
            cases hsign.2
    | infinite => cases hy
    | nan => cases hy
  | infinite => cases hx
  | nan => cases hx

end Binary64

end Calculator
