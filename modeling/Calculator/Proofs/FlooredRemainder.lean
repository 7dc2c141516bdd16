import Calculator.Proofs.FiniteArithmetic
import Mathlib.Algebra.Ring.Nat

/-!
# The remainder of whole numbers

A remainder takes the whole numbers nearest to its operands. The remainder with the sign of the
dividend is exact; where the divisor has the other sign it is added, and this sum is rounded. So the
result is the number nearest to the floored remainder of two integers. It keeps the sign of the
divisor and does not pass it, but a remainder that lies close to a large divisor is rounded to it.
-/

namespace Calculator

open Binary64 (exists_unitsPerOne_eq unitsPerOne_pos)

/-! ## Integers -/

/-- The integer with the given sign and size. -/
def signedInt (negative : Bool) (size : Nat) : Int :=
  if negative then -(size : Int) else size

@[simp] theorem signedInt_inj {negative : Bool} {i j : Nat} :
    signedInt negative i = signedInt negative j ↔ i = j := by
  cases negative <;> simp only [signedInt, if_true, Bool.false_eq_true, if_false] <;> omega

@[simp] theorem signedInt_eq_zero {negative : Bool} {i : Nat} :
    signedInt negative i = 0 ↔ i = 0 := by
  cases negative <;> simp [signedInt]

@[simp] theorem natAbs_signedInt (negative : Bool) (i : Nat) :
    (signedInt negative i).natAbs = i := by
  cases negative <;> simp [signedInt]

/-- Of two integers with the same sign the lesser one lies between zero and the other one. -/
theorem signedInt_between (negative : Bool) {i j : Nat} (h : i ≤ j) :
    (0 < signedInt negative j → 0 ≤ signedInt negative i ∧
      signedInt negative i ≤ signedInt negative j) ∧
    (signedInt negative j < 0 → signedInt negative j ≤ signedInt negative i ∧
      signedInt negative i ≤ 0) := by
  cases negative <;> simp only [signedInt, if_true, Bool.false_eq_true, if_false] <;> omega

/-- The floored remainder of a negative number is counted from the divisor downwards. -/
theorem neg_fmod_natCast (i : Nat) {j : Nat} (hj : 0 < j) :
    (-(i : Int)).fmod j = if i % j = 0 then 0 else ((j - i % j : Nat) : Int) := by
  have hle : i % j ≤ j := Nat.le_of_lt (Nat.mod_lt i hj)
  rw [Int.fmod_eq_emod_of_nonneg _ (Int.natCast_nonneg j), Int.neg_emod, Int.natAbs_natCast,
    ← Int.natCast_emod, ← Int.ofNat_sub hle]
  simp only [Int.natCast_dvd_natCast, Nat.dvd_iff_mod_eq_zero]

/-- The floored remainder has the sign of the divisor. Where the dividend has this sign too, its
size is the remainder of the sizes, and else what this remainder lacks to the divisor. -/
theorem fmod_signedInt (a b : Bool) (i : Nat) {j : Nat} (hj : 0 < j) :
    (signedInt a i).fmod (signedInt b j) =
      if i % j = 0 then 0 else signedInt b (if a = b then i % j else j - i % j) := by
  have hsame : ((i : Int)).fmod j = (i % j : Nat) := (Int.ofNat_fmod i j).symm
  have hother := neg_fmod_natCast i hj
  cases a with
  | false =>
    cases b with
    | false =>
      simp only [signedInt, Bool.false_eq_true, if_false, if_true, hsame]
      split <;> omega
    | true =>
      have hneg := Int.neg_fmod_neg (-(i : Int)) j
      rw [Int.neg_neg] at hneg
      simp only [signedInt, Bool.false_eq_true, if_false, if_true, hneg, hother]
      split <;> omega
  | true =>
    cases b with
    | false =>
      simp only [signedInt, Bool.false_eq_true, Bool.true_eq_false, if_false, if_true, hother]
    | true =>
      simp only [signedInt, if_true, Int.neg_fmod_neg, hsame]
      split <;> omega

/-- The floored remainder has the sign of the divisor and a lesser size. -/
theorem exists_fmod_signedInt (a b : Bool) (i : Nat) {j : Nat} (hj : 0 < j) :
    ∃ k, k < j ∧ (signedInt a i).fmod (signedInt b j) = signedInt b k := by
  have hmod := Nat.mod_lt i hj
  rw [fmod_signedInt a b i hj]
  by_cases hzero : i % j = 0
  · exact ⟨0, hj, by rw [if_pos hzero, signedInt_eq_zero.mpr rfl]⟩
  · refine ⟨_, ?_, if_neg hzero⟩
    split <;> omega

/-! ## Numbers that are whole -/

namespace Binary64

/-- The number nearest to an integer. -/
def ofInt (n : Int) : Binary64 :=
  round (decide (n < 0)) (n.natAbs * unitsPerOne) 1

/-- Whether a number is finite and equal to an integer. -/
def IsWhole (x : Binary64) (n : Int) : Prop :=
  ∃ negative m, x = .finite negative m ∧ m.signed negative = n * unitsPerOne

/-- Whether an integer is the one nearest to a finite number. Of two that are equally near it is the
one away from zero. -/
def RoundsTo (x : Binary64) (n : Int) : Prop :=
  ∃ negative m, x = .finite negative m ∧
    2 * (m.signed negative - n * unitsPerOne).natAbs ≤ unitsPerOne ∧
    (2 * (m.signed negative - n * unitsPerOne).natAbs = unitsPerOne →
      (m.signed negative).natAbs < (n * unitsPerOne).natAbs)

/-- Positive zero is a whole number. -/
theorem isWhole_zero : zero.IsWhole 0 := by
  refine ⟨false, .zero, rfl, ?_⟩
  rw [Int.zero_mul]
  rfl

/-- The number nearest to zero is positive zero. -/
theorem ofInt_zero : ofInt 0 = zero := by
  have hround := Magnitude.round_units false .zero
  rw [show Magnitude.zero.units = 0 from rfl] at hround
  rw [ofInt, Int.natAbs_zero, Nat.zero_mul]
  exact hround

/-- The number nearest to an integer is rounded with the sign of the integer. -/
theorem ofInt_signedInt (negative : Bool) {k : Nat} (hk : 0 < k) :
    ofInt (signedInt negative k) = round negative (k * unitsPerOne) 1 := by
  cases negative with
  | false => rw [ofInt, signedInt, if_neg Bool.false_ne_true, decide_eq_false (by omega),
      Int.natAbs_natCast]
  | true => rw [ofInt, signedInt, if_pos rfl, decide_eq_true (by omega), Int.natAbs_neg,
      Int.natAbs_natCast]

/-- A number that consists of ones is the integer with its sign. -/
theorem signed_eq {m : Magnitude} {k : Nat} (hm : m.units = k * unitsPerOne) (negative : Bool) :
    m.signed negative = signedInt negative k * unitsPerOne := by
  cases negative with
  | false => simp only [Magnitude.signed, signedInt, Bool.false_eq_true, if_false, hm,
      Int.natCast_mul]
  | true => simp only [Magnitude.signed, signedInt, if_true, hm, Int.natCast_mul, Int.neg_mul]

/-- A finite number is rounded to the integer that is the nearest. -/
theorem exists_roundsTo (negative : Bool) (m : Magnitude) : ∃ (n : Magnitude) (k : Nat),
    (finite negative m).roundHalfAway = .finite negative n ∧ n.units = k * unitsPerOne ∧
      (finite negative m).RoundsTo (signedInt negative k) := by
  obtain ⟨n, k, hround, hn, hle, hlt⟩ := exists_roundHalfAway negative m
  refine ⟨n, k, hround, hn, negative, m, rfl, ?_⟩
  rw [← signed_eq hn]
  rw [← hn] at hle hlt
  cases negative with
  | false =>
    simp only [Magnitude.signed, Bool.false_eq_true, if_false]
    omega
  | true =>
    simp only [Magnitude.signed, if_true]
    omega

/-- A whole number that does not exceed a magnitude is rounded to a whole number that does not
exceed it either and is zero only if it was; up to 2⁵³ it stays as it is. -/
theorem exists_round_ones (negative : Bool) {k j : Nat} {n : Magnitude}
    (hn : n.units = j * unitsPerOne) (hk : k ≤ j) : ∃ (r : Magnitude) (l : Nat),
      round negative (k * unitsPerOne) 1 = .finite negative r ∧ r.units = l * unitsPerOne ∧
      l ≤ j ∧ (l = 0 ↔ k = 0) ∧ (k ≤ 2 ^ 53 → l = k) := by
  obtain ⟨places, -, hplaces⟩ := exists_unitsPerOne_eq
  have hone := unitsPerOne_pos
  have hle : k * unitsPerOne ≤ 1 * n.units := by
    rw [hn, Nat.one_mul]
    exact Nat.mul_le_mul_right _ hk
  obtain ⟨r, hr⟩ := Magnitude.exists_nearest? Nat.one_pos hle
  obtain ⟨l, hl⟩ : unitsPerOne ∣ r.units := by
    rw [hplaces]
    exact Magnitude.dvd_units_of_nearest? hr (hplaces ▸ Nat.dvd_mul_left _ _)
  rw [Nat.mul_comm] at hl
  refine ⟨r, l, Magnitude.round_of_nearest? negative hr, hl, ?_, ?_, fun hsmall => ?_⟩
  · have hmax := Magnitude.units_le_of_nearest? Nat.one_pos hle hr
    rw [hl, hn] at hmax
    exact Nat.le_of_mul_le_mul_right hmax hone
  · constructor
    · rintro rfl
      have hzero := r.units_eq_zero_iff.mp (hl.trans (Nat.zero_mul _))
      refine Nat.eq_zero_of_not_pos fun hpos => ?_
      exact Magnitude.significand_ne_zero Nat.one_pos (Nat.mul_pos hpos hone) hr hzero
    · rintro rfl
      have hzero : 0 * unitsPerOne ≤ 1 * Magnitude.zero.units := by
        rw [Nat.zero_mul]
        exact Nat.zero_le _
      have hnone := Magnitude.units_le_of_nearest? Nat.one_pos hzero hr
      rw [hl] at hnone
      have hprod : l * unitsPerOne = 0 := Nat.le_zero.mp hnone
      exact (Nat.mul_eq_zero.mp hprod).resolve_right (Nat.ne_of_gt hone)
  · obtain ⟨m, hm⟩ := exists_units_eq hsmall
    rw [← hm, Magnitude.nearest?_units] at hr
    cases hr
    exact Nat.eq_of_mul_eq_mul_right hone (hl.symm.trans hm)

/-- An integer that is less than a number in size is rounded to an integer that does not exceed it.
It is the number itself exactly where no other one is nearer, and never up to 2⁵³. -/
theorem exists_ofInt_signedInt (negative : Bool) {k j : Nat} {n : Magnitude}
    (hn : n.units = j * unitsPerOne) (hk : k < j) : ∃ l, l ≤ j ∧
      (ofInt (signedInt negative k)).IsWhole (signedInt negative l) ∧
      (l = 0 → ofInt (signedInt negative k) = zero) ∧
      (l = j ↔ ofInt (signedInt negative k) = ofInt (signedInt negative j)) ∧
      (j ≤ 2 ^ 53 → l ≠ j) := by
  obtain ⟨r, l, hround, hr, hle, hzero, hexact⟩ :=
    exists_round_ones negative hn (Nat.le_of_lt hk)
  have hj : 0 < j := Nat.zero_lt_of_lt hk
  have hdivisor : ofInt (signedInt negative j) = .finite negative n := by
    rw [ofInt_signedInt negative hj, ← hn, Magnitude.round_units]
  have hstrict : j ≤ 2 ^ 53 → l ≠ j := by
    intro hsmall hsame
    have hkept := hexact (by omega)
    omega
  rcases Nat.eq_zero_or_pos k with rfl | hpos
  · obtain rfl := hzero.mpr rfl
    rw [signedInt_eq_zero.mpr rfl, ofInt_zero, hdivisor]
    refine ⟨0, hle, ?_, fun _ => rfl, ?_, hstrict⟩
    · rw [signedInt_eq_zero.mpr rfl]
      exact isWhole_zero
    · refine iff_of_false (Nat.ne_of_lt hj) fun h => ?_
      injection h with _ h
      rw [← h] at hn
      exact Nat.ne_of_lt (Nat.mul_pos hj unitsPerOne_pos) hn
  · rw [ofInt_signedInt negative hpos, hround, hdivisor]
    refine ⟨l, hle, ⟨negative, r, rfl, signed_eq hr negative⟩, ?_, ?_, hstrict⟩
    · intro hl
      exact absurd (hzero.mp hl) (Nat.ne_of_gt hpos)
    · constructor
      · rintro rfl
        rw [Magnitude.eq_of_units_eq (hr.trans hn.symm)]
      · intro h
        injection h with _ h
        rw [h, hn] at hr
        exact (Nat.eq_of_mul_eq_mul_right unitsPerOne_pos hr).symm

end Binary64

/-! ## The remainder -/

open Binary64

/-- **The remainder of whole numbers is rounded once.** It is the number nearest to their floored
remainder. -/
theorem flooredRemainder_eq (a b : Bool) {m n : Magnitude} {i j : Nat}
    (hm : m.units = i * unitsPerOne) (hn : n.units = j * unitsPerOne) (hj : 0 < j) :
    flooredRemainder (.finite a m) (.finite b n) =
      .ofInt ((signedInt a i).fmod (signedInt b j)) := by
  have hone := unitsPerOne_pos
  have hne : n.significand ≠ 0 := by
    rw [Ne, ← n.units_eq_zero_iff, hn]
    exact Nat.ne_of_gt (Nat.mul_pos hj hone)
  have hbelow : (finite b n).isBelowZero = b := by
    rw [isBelowZero, bne_iff_ne.mpr hne, Bool.and_true]
  obtain ⟨r, hrem, hr⟩ := exists_rem_eq a b m hne
  rw [hm, hn, Nat.mul_mod_mul_right] at hr
  rw [flooredRemainder, hrem, hbelow, fmod_signedInt a b i hj]
  have hlt := Nat.mod_lt i hj
  generalize i % j = k at hr hlt
  by_cases hzero : k = 0
  · -- nothing remains
    subst hzero
    have hsignificand := r.units_eq_zero_iff.mp (hr.trans (Nat.zero_mul _))
    simp [isZero, hsignificand, ofInt_zero]
  have hpos := Nat.pos_of_ne_zero hzero
  have hsignificand : r.significand ≠ 0 := by
    rw [Ne, ← r.units_eq_zero_iff, hr]
    exact Nat.ne_of_gt (Nat.mul_pos hpos hone)
  have hsign : (finite a r).isBelowZero = a := by
    rw [isBelowZero, bne_iff_ne.mpr hsignificand, Bool.and_true]
  have hnonzero : (finite a r).isZero = false := beq_eq_false_iff_ne.mpr hsignificand
  rw [if_neg hzero, hsign, hnonzero]
  by_cases hsame : a = b
  · -- the remainder has the sign of the divisor already
    subst hsame
    rw [if_pos rfl, ofInt_signedInt a hpos, ← hr, Magnitude.round_units]
    simp [hnonzero]
  · -- the divisor is added, which has more units
    have hunits : r.units < n.units := by
      rw [hr, hn]
      exact (Nat.mul_lt_mul_right hone).mpr hlt
    have hadd : (finite a r).add (.finite b n) = round b ((j - k) * unitsPerOne) 1 := by
      rw [add, if_neg hsame, if_neg (Nat.ne_of_lt hunits), if_neg (Nat.lt_asymm hunits), hr, hn,
        Nat.sub_mul]
    have hrounded : (round b ((j - k) * unitsPerOne) 1).isZero = false := by
      cases hround : round b ((j - k) * unitsPerOne) 1 with
      | finite c q =>
        have hq := Magnitude.nearest?_of_round hround
        have hgap := Nat.mul_pos (Nat.sub_pos_of_lt hlt) hone
        exact beq_eq_false_iff_ne.mpr (Magnitude.significand_ne_zero Nat.one_pos hgap hq)
      | infinite => rfl
      | nan => rfl
    rw [if_neg hsame, ofInt_signedInt b (Nat.sub_pos_of_lt hlt), hadd]
    simp [hsame, hrounded]

/-- What the remainder of the integer `a` by the integer `b`, which is not zero, is as a number. -/
structure IsRemainder (a b : Int) (r : Binary64) : Prop where
  /-- It is the number nearest to the floored remainder. -/
  eq_ofInt : r = .ofInt (a.fmod b)
  /-- It is whole, positive zero or of the sign of the divisor, and does not pass the divisor. It is
  the divisor only where no other number is nearer to the floored remainder, and so never for a
  divisor up to 2⁵³. -/
  range : ∃ n : Int, r.IsWhole n ∧ (n = 0 → r = .zero) ∧
    (0 < b → 0 ≤ n ∧ n ≤ b) ∧ (b < 0 → b ≤ n ∧ n ≤ 0) ∧
    (n = b ↔ ofInt (a.fmod b) = ofInt b) ∧ (b.natAbs ≤ 2 ^ 53 → n ≠ b)

/-- **A remainder has the sign of its divisor and does not pass it.** Two finite numbers are rounded
to integers, and unless the divisor becomes zero they have a remainder, which is that of the
integers. -/
theorem modulo_range {x y : Binary64} (hx : x.isFinite = true) (hy : y.isFinite = true) :
    ∃ a b : Int, x.RoundsTo a ∧ y.RoundsTo b ∧ (b ≠ 0 → ∀ rightStart start,
      ∃ r, modulo x y rightStart start = .ok r ∧ IsRemainder a b r) := by
  cases x with
  | finite a m =>
    cases y with
    | finite b n =>
      obtain ⟨m', i, hxround, hm, hxnearest⟩ := exists_roundsTo a m
      obtain ⟨n', j, hyround, hn, hynearest⟩ := exists_roundsTo b n
      refine ⟨_, _, hxnearest, hynearest, fun hb rightStart start => ?_⟩
      have hj : 0 < j := Nat.pos_of_ne_zero fun hzero => hb (signedInt_eq_zero.mpr hzero)
      have hnonzero : (finite b n').isZero = false := by
        rw [isZero, beq_eq_false_iff_ne, Ne, ← n'.units_eq_zero_iff, hn]
        exact Nat.ne_of_gt (Nat.mul_pos hj unitsPerOne_pos)
      obtain ⟨k, hk, hfmod⟩ := exists_fmod_signedInt a b i hj
      obtain ⟨l, hl, hwhole, hzero, hdivisor, hstrict⟩ := exists_ofInt_signedInt b hn hk
      refine ⟨ofInt (signedInt b k), ?_, ?_⟩
      · obtain ⟨negative, r, hr, -⟩ := hwhole
        rw [modulo, hyround, hnonzero, if_neg Bool.false_ne_true, hxround,
          flooredRemainder_eq a b hm hn hj, hfmod, requireFinite, hr, isFinite, if_pos rfl]
      · obtain ⟨hpositive, hnegative⟩ := signedInt_between b hl
        rw [← hfmod] at hwhole hzero hdivisor ⊢
        refine ⟨rfl, _, hwhole, fun h => hzero (signedInt_eq_zero.mp h), hpositive, hnegative,
          signedInt_inj.trans hdivisor, fun hsmall hsame => ?_⟩
        rw [natAbs_signedInt] at hsmall
        exact hstrict hsmall (signedInt_inj.mp hsame)
    | infinite => cases hy
    | nan => cases hy
  | infinite => cases hx
  | nan => cases hx

/-- The remainder of 7.5 by -2.5 is that of 8 by -3. -/
theorem modulo_range_halves :
    let x : Binary64 := .ofDecimal false 75 (-1)
    let y : Binary64 := .ofDecimal true 25 (-1)
    x.isFinite = true ∧ y.isFinite = true ∧ modulo x y 6 0 = .ok (ofInt (-1)) ∧
      ∃ a b : Int, x.RoundsTo a ∧ y.RoundsTo b ∧ (b ≠ 0 → ∀ rightStart start,
        ∃ r, modulo x y rightStart start = .ok r ∧ IsRemainder a b r) := by
  intro x y
  have hx : x.isFinite = true := by decide +kernel
  have hy : y.isFinite = true := by decide +kernel
  exact ⟨hx, hy, by decide +kernel, modulo_range hx hy⟩

/-- The floored remainder of -1 by 10¹⁶ is no number, and of the two that are nearest to it the
divisor has the even significand. So the remainder is not less than the divisor. -/
theorem modulo_eq_divisor :
    let x := ofInt (-1)
    let y := ofInt (10 ^ 16)
    x.isFinite = true ∧ y.isFinite = true ∧ x.roundHalfAway = x ∧ y.roundHalfAway = y ∧
      y.isZero = false ∧ modulo x y 5 0 = .ok y ∧ y.abs.lt y.abs = false := by
  decide +kernel

end Calculator
