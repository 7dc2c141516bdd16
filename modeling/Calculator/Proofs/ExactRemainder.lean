import Calculator.Proofs.FlooredRemainder
import Mathlib.Data.Rat.Floor

/-!
# Remainders by divisors up to 2⁵³

A whole number up to 2⁵³ is exact. The floored remainder is less than the divisor, so by a divisor
up to 2⁵³ it is exact as well, however large the dividend is.
-/

namespace Calculator

namespace Binary64

/-! ## The nearest integer -/

/-- Of two integers the lesser one is less by one or more. -/
theorem mul_unitsPerOne_add_le {n k : Int} (h : n < k) :
    n * unitsPerOne + unitsPerOne ≤ k * unitsPerOne := by
  have hone : (0 : Int) ≤ unitsPerOne := Int.natCast_nonneg _
  have hmul := Int.mul_le_mul_of_nonneg_right (Int.add_one_le_of_lt h) hone
  rwa [Int.add_mul, Int.one_mul] at hmul

/-- No number is rounded to two integers. -/
theorem RoundsTo.not_lt {x : Binary64} {n k : Int} (hn : x.RoundsTo n) (hk : x.RoundsTo k) :
    ¬ n < k := by
  intro hlt
  obtain ⟨negative, m, rfl, hnear, htie⟩ := hn
  obtain ⟨_, _, hsame, hnear', htie'⟩ := hk
  cases hsame
  have hone := unitsPerOne_pos
  have hstep := mul_unitsPerOne_add_le hlt
  -- both are nearest only if the number is midway, and then one of them lies nearer to zero
  rcases lt_or_ge n 0 with hneg | hpos
  · rcases lt_or_ge 0 k with hpos' | hneg'
    · have hbelow := mul_unitsPerOne_add_le hneg
      have habove := mul_unitsPerOne_add_le hpos'
      omega
    · have hbelow : k * unitsPerOne ≤ 0 :=
        Int.mul_nonpos_of_nonpos_of_nonneg hneg' (Int.natCast_nonneg _)
      omega
  · have habove : 0 ≤ n * unitsPerOne := Int.mul_nonneg hpos (Int.natCast_nonneg _)
    omega

/-- A number is rounded to one integer. -/
theorem RoundsTo.unique {x : Binary64} {n k : Int} (hn : x.RoundsTo n) (hk : x.RoundsTo k) :
    n = k :=
  Int.le_antisymm (Int.not_lt.mp (hk.not_lt hn)) (Int.not_lt.mp (hn.not_lt hk))

/-- A finite number is rounded to an integer. -/
theorem exists_roundsTo_iff {x : Binary64} (hx : x.isFinite = true) :
    ∃ a : Int, ∀ n, x.RoundsTo n ↔ n = a := by
  cases x with
  | finite negative m =>
    obtain ⟨-, k, -, -, hnearest⟩ := exists_roundsTo negative m
    refine ⟨signedInt negative k, fun n => ⟨fun hn => hn.unique hnearest, ?_⟩⟩
    rintro rfl
    exact hnearest
  | infinite => cases hx
  | nan => cases hx

/-! ## Exact integers -/

/-- An integer up to 2⁵³ is exact. -/
theorem isWhole_ofInt {n : Int} (hn : n.natAbs ≤ 2 ^ 53) : (ofInt n).IsWhole n := by
  obtain ⟨m, hm⟩ := exists_units_eq hn
  refine ⟨decide (n < 0), m, ?_, ?_⟩
  · rw [ofInt, ← hm, Magnitude.round_units]
  · rw [signed_eq hm, signedInt]
    congr 1
    by_cases hneg : n < 0
    · rw [decide_eq_true hneg, if_pos rfl]
      omega
    · rw [decide_eq_false hneg, if_neg Bool.false_ne_true]
      omega

/-- Rounding to a finite number keeps the sign. -/
theorem sign_of_round {negative b : Bool} {num den : Nat} {m : Magnitude}
    (h : round negative num den = .finite b m) : negative = b := by
  unfold round at h
  split at h
  · injection h
  · cases h

/-- No integer is rounded to negative zero. -/
theorem ofInt_ne_negative_zero (n : Int) : ofInt n ≠ .finite true .zero := by
  intro h
  rw [ofInt] at h
  have hneg : n < 0 := of_decide_eq_true (sign_of_round h)
  have hsize : 0 < n.natAbs := Int.natAbs_pos.mpr (Int.ne_of_lt hneg)
  have hpos : 1 ≤ n.natAbs * unitsPerOne := Nat.mul_pos hsize unitsPerOne_pos
  exact Magnitude.significand_ne_zero Nat.one_pos hpos (Magnitude.nearest?_of_round h) rfl

end Binary64

/-! ## The floored remainder -/

/-- The floor of a quotient of integers is their floored quotient. -/
theorem floor_div_eq_fdiv (a b : Int) : ⌊(a : ℚ) / b⌋ = a.fdiv b := by
  obtain ⟨n, rfl | rfl⟩ := b.eq_nat_or_neg
  · rw [Int.cast_natCast, Rat.floor_intCast_div_natCast,
      Int.fdiv_eq_ediv_of_nonneg _ (Int.natCast_nonneg n)]
  · have hneg := Int.neg_fdiv_neg (-a) n
    rw [Int.neg_neg] at hneg
    rw [Int.cast_neg, Int.cast_natCast, div_neg, ← neg_div, ← Int.cast_neg,
      Rat.floor_intCast_div_natCast, hneg, Int.fdiv_eq_ediv_of_nonneg _ (Int.natCast_nonneg n)]

/-- The floored remainder by an integer that is not zero is less than it in size. -/
theorem natAbs_fmod_lt (a : Int) {b : Int} (hb : b ≠ 0) : (a.fmod b).natAbs < b.natAbs := by
  rcases lt_or_gt_of_ne hb with hneg | hpos
  · have hsame := Int.neg_fmod_neg (-a) (-b)
    rw [Int.neg_neg, Int.neg_neg] at hsame
    have hnonneg := Int.fmod_nonneg_of_pos (-a) (Int.neg_pos_of_neg hneg)
    have hlt := Int.fmod_lt_of_pos (-a) (Int.neg_pos_of_neg hneg)
    omega
  · have hnonneg := Int.fmod_nonneg_of_pos a hpos
    have hlt := Int.fmod_lt_of_pos a hpos
    omega

open Binary64

/-- The remainder of numbers that are rounded to integers is that of the integers, rounded once. -/
theorem modulo_eq {x y : Binary64} {a b : Int} (hx : x.RoundsTo a) (hy : y.RoundsTo b)
    (hb : b ≠ 0) (rightStart start : Nat) :
    modulo x y rightStart start = requireFinite "'%'" start (ofInt (a.fmod b)) := by
  obtain ⟨c, m, rfl, -⟩ := id hx
  obtain ⟨d, n, rfl, -⟩ := id hy
  obtain ⟨m', i, hxround, hm, hxnearest⟩ := exists_roundsTo c m
  obtain ⟨n', j, hyround, hn, hynearest⟩ := exists_roundsTo d n
  obtain rfl := hx.unique hxnearest
  obtain rfl := hy.unique hynearest
  have hj : 0 < j := Nat.pos_of_ne_zero fun hzero => hb (signedInt_eq_zero.mpr hzero)
  have hnonzero : (finite d n').isZero = false := by
    rw [isZero, beq_eq_false_iff_ne, Ne, ← n'.units_eq_zero_iff, hn]
    exact Nat.ne_of_gt (Nat.mul_pos hj unitsPerOne_pos)
  rw [modulo, hyround, hnonzero, if_neg Bool.false_ne_true, hxround,
    flooredRemainder_eq c d hm hn hj]

/-- The remainder of numbers that are rounded to integers is that of the integers, if the one of the
divisor is not zero and not above 2⁵³. -/
theorem modulo_eq_ok {x y : Binary64} {a b : Int} (hx : x.RoundsTo a) (hy : y.RoundsTo b)
    (hb : b ≠ 0) (hsmall : b.natAbs ≤ 2 ^ 53) (rightStart start : Nat) :
    modulo x y rightStart start = .ok (ofInt (a.fmod b)) ∧
      (ofInt (a.fmod b)).IsWhole (a.fmod b) := by
  have hlt := natAbs_fmod_lt a hb
  have hwhole := isWhole_ofInt (Nat.le_of_lt (Nat.lt_of_lt_of_le hlt hsmall))
  refine ⟨?_, hwhole⟩
  obtain ⟨negative, m, hm, -⟩ := hwhole
  rw [modulo_eq hx hy hb, requireFinite, hm, isFinite, if_pos rfl]

/-- **A remainder by a divisor up to 2⁵³ is exact.** Each of two finite numbers is rounded to one
integer. If that of the divisor is not zero and not above 2⁵³ in size, then the remainder is the
exact integer, however large the dividend is, and it is never negative zero. -/
theorem modulo_exact {x y : Binary64} (hx : x.isFinite = true) (hy : y.isFinite = true) :
    ∃ a b : Int, (∀ n, x.RoundsTo n ↔ n = a) ∧ (∀ n, y.RoundsTo n ↔ n = b) ∧
      (1 ≤ b.natAbs → b.natAbs ≤ 2 ^ 53 → ∀ rightStart start,
        ∃ r, modulo x y rightStart start = .ok r ∧ r.IsWhole (a - b * ⌊(a : ℚ) / b⌋) ∧
          r ≠ .finite true .zero) := by
  obtain ⟨a, ha⟩ := exists_roundsTo_iff hx
  obtain ⟨b, hb⟩ := exists_roundsTo_iff hy
  refine ⟨a, b, ha, hb, fun hpos hsmall rightStart start => ?_⟩
  have hne : b ≠ 0 := Int.natAbs_pos.mp hpos
  obtain ⟨hok, hwhole⟩ :=
    modulo_eq_ok ((ha a).mpr rfl) ((hb b).mpr rfl) hne hsmall rightStart start
  refine ⟨_, hok, ?_, ofInt_ne_negative_zero _⟩
  rwa [floor_div_eq_fdiv, ← Int.fmod_def]

/-- The remainder of 10²⁰ by -7.25 is that by -7, and it has the sign of the divisor. -/
theorem modulo_exact_far :
    let x : Binary64 := .ofDecimal false 1 20
    let y : Binary64 := .ofDecimal true 725 (-2)
    x.isFinite = true ∧ y.isFinite = true ∧ modulo x y 5 0 = .ok (ofInt (-5)) ∧
      ∃ a b : Int, (∀ n, x.RoundsTo n ↔ n = a) ∧ (∀ n, y.RoundsTo n ↔ n = b) ∧
        (1 ≤ b.natAbs → b.natAbs ≤ 2 ^ 53 → ∀ rightStart start,
          ∃ r, modulo x y rightStart start = .ok r ∧ r.IsWhole (a - b * ⌊(a : ℚ) / b⌋) ∧
            r ≠ .finite true .zero) := by
  intro x y
  have hx : x.isFinite = true := by decide +kernel
  have hy : y.isFinite = true := by decide +kernel
  exact ⟨hx, hy, by decide +kernel, modulo_exact hx hy⟩

end Calculator
