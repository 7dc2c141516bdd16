import Calculator.Proofs.EvaluationLimit
import Calculator.Proofs.ExactRemainder

/-!
# Arithmetic on integers is exact

Integers up to 2⁵³ are numbers, so an operation whose exact result is such an integer gives it. An
expression of integers that does not leave this range, and in which every division comes out even,
has the value that it has among the integers. Zeros may be of either sign on the way; no operation
and no error looks at it.
-/

namespace Calculator

/-! ## Signs and sizes -/

/-- Integers of one sign add up to one of this sign. -/
theorem signedInt_add (a : Bool) (i j : Nat) :
    signedInt a i + signedInt a j = signedInt a (i + j) := by
  cases a <;> simp only [signedInt, if_true, Bool.false_eq_true, if_false] <;> omega

/-- Of two integers of different signs the larger one has the sign of the sum. -/
theorem signedInt_add_of_ne {a b : Bool} (h : a ≠ b) {i j : Nat} (hle : j ≤ i) :
    signedInt a i + signedInt b j = signedInt a (i - j) := by
  cases a <;> cases b
  · exact absurd rfl h
  · simp only [signedInt, if_true, Bool.false_eq_true, if_false]
    omega
  · simp only [signedInt, if_true, Bool.false_eq_true, if_false]
    omega
  · exact absurd rfl h

/-- A product is negative if one factor is. -/
theorem signedInt_mul (a b : Bool) (i j : Nat) :
    signedInt a i * signedInt b j = signedInt (a != b) (i * j) := by
  cases a <;> cases b <;> simp [signedInt]

/-- A power is negative if the base is and the exponent is odd. -/
theorem signedInt_pow (a : Bool) (i k : Nat) :
    signedInt a i ^ k = signedInt (a && k % 2 == 1) (i ^ k) := by
  induction k with
  | zero => cases a <;> simp [signedInt]
  | succ k ih =>
    have hsign : ((a && k % 2 == 1) != a) = (a && (k + 1) % 2 == 1) := by
      rcases Nat.mod_two_eq_zero_or_one k with h | h <;> cases a <;> simp [Nat.add_mod, h]
    rw [Int.pow_succ, ih, signedInt_mul, hsign, Nat.pow_succ]

namespace Binary64

/-! ## Whole numbers -/

namespace IsWhole

variable {x y : Binary64} {a b : Int}

/-- A whole number consists of ones and has the sign of its integer. -/
theorem exists_ones (h : x.IsWhole a) : ∃ (negative : Bool) (m : Magnitude) (i : Nat),
    x = .finite negative m ∧ m.units = i * unitsPerOne ∧ a = signedInt negative i := by
  obtain ⟨negative, m, rfl, hm⟩ := h
  have hsize : (m.signed negative).natAbs = m.units := natAbs_signedInt negative m.units
  have hunits : m.units = a.natAbs * unitsPerOne := by
    rw [← hsize, hm, Int.natAbs_mul, Int.natAbs_natCast]
  refine ⟨negative, m, a.natAbs, rfl, hunits, ?_⟩
  have hone : (unitsPerOne : Int) ≠ 0 := Int.natCast_ne_zero.mpr (Nat.ne_of_gt unitsPerOne_pos)
  exact Int.eq_of_mul_eq_mul_right hone (hm.symm.trans (signed_eq hunits negative))

/-- A whole number is finite. -/
theorem isFinite (h : x.IsWhole a) : x.isFinite = true := by
  obtain ⟨negative, m, rfl, -⟩ := h
  rfl

/-- A whole number is integral. -/
theorem isIntegral (h : x.IsWhole a) : x.isIntegral = true := by
  obtain ⟨negative, m, i, rfl, hm, -⟩ := h.exists_ones
  rw [Binary64.isIntegral, hm, Nat.mul_mod_left]
  rfl

/-- A whole number is rounded to its integer. -/
theorem roundsTo (h : x.IsWhole a) : x.RoundsTo a := by
  obtain ⟨negative, m, rfl, hm⟩ := h
  have hone := unitsPerOne_pos
  refine ⟨negative, m, rfl, ?_⟩
  rw [hm]
  omega

/-- A whole number is a zero if its integer is zero. -/
theorem isZero_eq (h : x.IsWhole a) : x.isZero = decide (a = 0) := by
  obtain ⟨negative, m, i, rfl, hm, rfl⟩ := h.exists_ones
  rw [isZero, Bool.eq_iff_iff, beq_iff_eq, decide_eq_true_eq, signedInt_eq_zero,
    ← m.units_eq_zero_iff, hm, Nat.mul_eq_zero]
  exact or_iff_left (Nat.ne_of_gt unitsPerOne_pos)

/-- A whole number lies below zero if its integer does. -/
theorem isBelowZero_eq (h : x.IsWhole a) : x.isBelowZero = decide (a < 0) := by
  have hzero := h.isZero_eq
  obtain ⟨negative, m, i, rfl, hm, rfl⟩ := h.exists_ones
  rw [isZero, decide_eq_decide.mpr signedInt_eq_zero] at hzero
  rw [isBelowZero, bne, hzero]
  cases negative with
  | false => exact (decide_eq_false (Int.not_lt.mpr (Int.natCast_nonneg i))).symm
  | true =>
    rw [Bool.true_and, ← decide_not, signedInt, if_pos rfl]
    exact decide_eq_decide.mpr (by omega)

/-- A whole number is odd if its integer is. -/
theorem isOdd_eq (h : x.IsWhole a) : x.isOdd = (a.natAbs % 2 == 1) := by
  obtain ⟨negative, m, i, rfl, hm, rfl⟩ := h.exists_ones
  have hone := unitsPerOne_pos
  rw [isOdd, hm, Nat.mul_mod_mul_right, natAbs_signedInt, Bool.eq_iff_iff, beq_iff_eq, beq_iff_eq]
  rcases Nat.mod_two_eq_zero_or_one i with h | h <;> rw [h] <;> omega

/-- The number with the other sign is the integer with the other sign. -/
theorem neg (h : x.IsWhole a) : x.neg.IsWhole (-a) := by
  obtain ⟨negative, m, rfl, hm⟩ := h
  refine ⟨!negative, m, rfl, ?_⟩
  rw [Int.neg_mul, ← hm]
  cases negative <;> simp [Magnitude.signed]

end IsWhole

/-- Ones are rounded to an integer up to 2⁵³ as they are. -/
theorem isWhole_round (negative : Bool) {k : Nat} (hk : k ≤ 2 ^ 53) :
    (round negative (k * unitsPerOne) 1).IsWhole (signedInt negative k) := by
  obtain ⟨m, hm⟩ := exists_units_eq hk
  rw [← hm, Magnitude.round_units]
  exact ⟨negative, m, rfl, signed_eq hm negative⟩

/-! ## Exact results -/

section

variable {x y : Binary64} {a b : Int}

/-- A sum is exact. -/
theorem isWhole_add (hx : x.IsWhole a) (hy : y.IsWhole b) (h : (a + b).natAbs ≤ 2 ^ 53) :
    (x.add y).IsWhole (a + b) := by
  have hone := unitsPerOne_pos
  obtain ⟨s, m, i, rfl, hm, rfl⟩ := hx.exists_ones
  obtain ⟨t, n, j, rfl, hn, rfl⟩ := hy.exists_ones
  rw [add, hm, hn, ← Nat.add_mul, ← Nat.sub_mul, ← Nat.sub_mul]
  by_cases hsame : s = t
  · subst hsame
    rw [signedInt_add, natAbs_signedInt] at h
    rw [if_pos rfl, signedInt_add]
    exact isWhole_round s h
  rw [if_neg hsame]
  rcases Nat.lt_trichotomy i j with hlt | rfl | hlt
  · have hunits : i * unitsPerOne < j * unitsPerOne := (Nat.mul_lt_mul_right hone).mpr hlt
    rw [Int.add_comm, signedInt_add_of_ne (Ne.symm hsame) (Nat.le_of_lt hlt)] at h ⊢
    rw [natAbs_signedInt] at h
    rw [if_neg (Nat.ne_of_lt hunits), if_neg (Nat.lt_asymm hunits)]
    exact isWhole_round t h
  · rw [if_pos rfl, signedInt_add_of_ne hsame (Nat.le_refl i), Nat.sub_self,
      signedInt_eq_zero.mpr rfl]
    exact isWhole_zero
  · have hunits : j * unitsPerOne < i * unitsPerOne := (Nat.mul_lt_mul_right hone).mpr hlt
    rw [signedInt_add_of_ne hsame (Nat.le_of_lt hlt)] at h ⊢
    rw [natAbs_signedInt] at h
    rw [if_neg (Nat.ne_of_gt hunits), if_pos hunits]
    exact isWhole_round s h

/-- A difference is exact. -/
theorem isWhole_sub (hx : x.IsWhole a) (hy : y.IsWhole b) (h : (a - b).natAbs ≤ 2 ^ 53) :
    (x.sub y).IsWhole (a - b) := by
  rw [Int.sub_eq_add_neg] at h ⊢
  exact isWhole_add hx hy.neg h

/-- A product is exact. -/
theorem isWhole_mul (hx : x.IsWhole a) (hy : y.IsWhole b) (h : (a * b).natAbs ≤ 2 ^ 53) :
    (x.mul y).IsWhole (a * b) := by
  obtain ⟨s, m, i, rfl, hm, rfl⟩ := hx.exists_ones
  obtain ⟨t, n, j, rfl, hn, rfl⟩ := hy.exists_ones
  rw [signedInt_mul] at h ⊢
  rw [natAbs_signedInt] at h
  have hunits : i * unitsPerOne * (j * unitsPerOne) = i * j * unitsPerOne * unitsPerOne := by
    rw [Nat.mul_mul_mul_comm, Nat.mul_assoc (i * j)]
  rw [mul, hm, hn, hunits, round_mul_self _ _ unitsPerOne_pos]
  exact isWhole_round _ h

/-- A quotient that comes out even is exact. -/
theorem isWhole_div (hx : x.IsWhole (a * b)) (hy : y.IsWhole b) (hb : b ≠ 0)
    (h : a.natAbs ≤ 2 ^ 53) : (x.div y).IsWhole a := by
  obtain ⟨s, m, k, rfl, hm, hk⟩ := hx.exists_ones
  obtain ⟨t, n, j, rfl, hn, rfl⟩ := hy.exists_ones
  have hj : 0 < j := Nat.pos_of_ne_zero fun hzero => hb (signedInt_eq_zero.mpr hzero)
  have hpos : 0 < n.units := hn ▸ Nat.mul_pos hj unitsPerOne_pos
  have hne : n.significand ≠ 0 := fun hzero => Nat.ne_of_gt hpos (n.units_eq_zero_iff.mpr hzero)
  -- the quotient has the sizes and the signs of both
  have hsize : k = a.natAbs * j := by
    rw [← natAbs_signedInt s k, ← hk, Int.natAbs_mul, natAbs_signedInt]
  have hsign : a = signedInt (s != t) a.natAbs := by
    refine Int.eq_of_mul_eq_mul_right hb ?_
    rw [signedInt_mul, Bool.bne_assoc, bne_self_eq_false, Bool.bne_false, hk, hsize]
  have hunits : m.units * unitsPerOne = a.natAbs * unitsPerOne * n.units := by
    rw [hm, hn, hsize, Nat.mul_mul_mul_comm a.natAbs unitsPerOne j unitsPerOne,
      Nat.mul_assoc (a.natAbs * j)]
  have hwhole := isWhole_round (s != t) h
  rw [← hsign] at hwhole
  rwa [div, if_neg hne, hunits, round_mul_self _ _ hpos]

/-- A power of ones to a natural number is worked out exactly and rounded once, if it is not above
2⁵³. -/
theorem positivePower_eq (negative : Bool) {i k : Nat} (hi : 0 < i) (hsmall : i ^ k ≤ 2 ^ 53) :
    positivePower negative (i * unitsPerOne) (k * unitsPerOne : Nat) =
      round negative (i ^ k * unitsPerOne) 1 := by
  have hone := unitsPerOne_pos
  unfold positivePower
  by_cases hbase : i = 1
  · subst hbase
    rw [if_pos (Nat.one_mul _), Nat.one_pow]
  have hbase' : i * unitsPerOne ≠ unitsPerOne := fun h =>
    hbase (Nat.eq_of_mul_eq_mul_right hone (h.trans (Nat.one_mul _).symm))
  -- a base from two on leaves no room for an exponent above 53
  have hexponent : k ≤ exactExponentLimit := by
    have htwo : 2 ^ k ≤ 2 ^ 53 := Nat.le_trans (Nat.pow_le_pow_left (by omega) k) hsmall
    have hk := (Nat.pow_le_pow_iff_right (by decide)).mp htwo
    rw [exactExponentLimit]
    omega
  have hnonneg : ¬ ((k * unitsPerOne : Nat) : Int) < 0 := Int.not_lt.mpr (Int.natCast_nonneg _)
  rw [if_neg hbase', Int.natAbs_natCast, Nat.mul_mod_left, Nat.mul_div_cancel _ hone,
    decide_eq_true rfl, decide_eq_true hexponent, Bool.and_self, if_pos rfl,
    decide_eq_false hnonneg, exactPower, if_neg Bool.false_ne_true, Nat.mul_pow,
    Nat.mul_right_comm, round_mul_self _ _ (Nat.pow_pos hone)]

/-- The number one consists of a single one. -/
theorem eq_one_of_ones {s : Bool} {m : Magnitude} {i : Nat} (hm : m.units = i * unitsPerOne)
    (h : finite s m = round false unitsPerOne 1) : s = false ∧ i = 1 := by
  obtain ⟨one, hone⟩ := exists_units_eq (show 1 ≤ 2 ^ 53 by decide)
  rw [← Nat.one_mul unitsPerOne, ← hone, Magnitude.round_units] at h
  injection h with hs hmagnitude
  rw [hmagnitude, hone] at hm
  exact ⟨hs, (Nat.eq_of_mul_eq_mul_right unitsPerOne_pos hm).symm⟩

/-- A power of a whole number to a natural number is worked out exactly and rounded once, if it is
not above 2⁵³. -/
theorem pow_eq {s t : Bool} {m n : Magnitude} {i k : Nat} (hm : m.units = i * unitsPerOne)
    (hy : (finite t n).IsWhole k) (hsmall : i ^ k ≤ 2 ^ 53) :
    (finite s m).pow (.finite t n) =
      round (s && k % 2 == 1) (i ^ k * unitsPerOne) 1 := by
  have hone := unitsPerOne_pos
  have hzero := hy.isZero_eq
  have hodd := hy.isOdd_eq
  have hintegral := hy.isIntegral
  rw [Int.natAbs_natCast] at hodd
  rw [pow, hodd, hintegral, Bool.not_true, Bool.and_false, if_neg Bool.false_ne_true]
  rcases Nat.eq_zero_or_pos k with rfl | hk
  · rw [hzero, decide_eq_true Int.natCast_zero, Bool.true_or, if_pos rfl, Nat.pow_zero, Nat.one_mul]
    exact congrArg (round · unitsPerOne 1) (Bool.and_false s).symm
  rw [hzero, decide_eq_false (by omega), Bool.false_or]
  by_cases hbase : finite s m = round false unitsPerOne 1
  · obtain ⟨rfl, rfl⟩ := eq_one_of_ones hm hbase
    rw [decide_eq_true hbase, if_pos rfl, Nat.one_pow, Nat.one_mul, Bool.false_and]
  rw [decide_eq_false hbase, if_neg Bool.false_ne_true]
  have hsigned : n.signed t = (k * unitsPerOne : Nat) := by
    obtain ⟨_, _, hsame, hn⟩ := hy
    cases hsame
    rw [hn, Int.natCast_mul]
  have hones : m.significand = 0 ↔ i = 0 := by
    rw [← m.units_eq_zero_iff, hm, Nat.mul_eq_zero]
    exact or_iff_left (Nat.ne_of_gt hone)
  by_cases hsignificand : m.significand = 0
  · -- an exponent above zero has no sign
    have hpos := Nat.mul_pos hk hone
    have ht : ¬ t = true := by
      rintro rfl
      rw [Magnitude.signed, if_pos rfl] at hsigned
      omega
    rw [if_pos hsignificand, if_neg ht, hones.mp hsignificand, Nat.zero_pow hk, Nat.zero_mul]
    exact (Magnitude.round_units _ .zero).symm
  · have hi : 0 < i := Nat.pos_of_ne_zero fun hzero => hsignificand (hones.mpr hzero)
    rw [if_neg hsignificand, hm, hsigned, positivePower_eq _ hi hsmall]

/-- A power to a natural number is exact. -/
theorem isWhole_pow {k : Nat} (hx : x.IsWhole a) (hy : y.IsWhole k)
    (h : (a ^ k).natAbs ≤ 2 ^ 53) : (x.pow y).IsWhole (a ^ k) := by
  obtain ⟨s, m, i, rfl, hm, rfl⟩ := hx.exists_ones
  obtain ⟨t, n, j, rfl, hn, -⟩ := hy.exists_ones
  rw [signedInt_pow] at h ⊢
  rw [natAbs_signedInt] at h
  rw [pow_eq hm hy h]
  exact isWhole_round _ h

end

/-- The integer that a number equals, if it is finite and whole. -/
def toInt? : Binary64 → Option Int
  | .finite negative m =>
    if m.units % unitsPerOne = 0 then some (signedInt negative (m.units / unitsPerOne)) else none
  | _ => none

/-- The integer of a number is the one that it equals. -/
theorem toInt?_eq_some_iff {x : Binary64} {n : Int} : x.toInt? = some n ↔ x.IsWhole n := by
  constructor
  · intro h
    cases x with
    | finite negative m =>
      rw [toInt?] at h
      split at h
      · next hmod =>
        cases h
        have hones := Nat.div_mul_cancel (Nat.dvd_of_mod_eq_zero hmod)
        exact ⟨negative, m, rfl, signed_eq hones.symm negative⟩
      · cases h
    | infinite => cases h
    | nan => cases h
  · intro h
    obtain ⟨negative, m, i, rfl, hm, rfl⟩ := h.exists_ones
    rw [toInt?, hm, if_pos (Nat.mul_mod_left _ _), Nat.mul_div_cancel _ unitsPerOne_pos]

end Binary64

/-! ## Expressions of integers -/

/-- The integer with a sign before it. -/
def Sign.onInteger : Sign → Int → Int
  | plus, n => n
  | minus, n => -n

/-- An operator applied to two integers. A quotient has to come out even, the remainder is the
floored one, and an exponent is not negative; every integer to the power zero is one. -/
def Operator.onIntegers? : Operator → Int → Int → Option Int
  | add, a, b => some (a + b)
  | sub, a, b => some (a - b)
  | mul, a, b => some (a * b)
  | div, a, b => if b ≠ 0 ∧ b ∣ a then some (a / b) else none
  | mod, a, b => if b ≠ 0 then some (a.fmod b) else none
  | pow, a, b => if 0 ≤ b then some (a ^ b.toNat) else none

/-- Whether an integer is not above 2⁵³ in size. -/
def isExactInteger (n : Int) : Bool :=
  n.natAbs ≤ 2 ^ 53

/-- The value of an expression among the integers, if all of its leaves are integers, every operator
has an integer as value, and no node has one above 2⁵³ in size. -/
def Expr.integerValue? : Expr → Option Int
  | number x _ => x.toInt?.filter isExactInteger
  | signed sign operand _ => (operand.integerValue?.map sign.onInteger).filter isExactInteger
  | binary operator left right _ => do
    let a ← left.integerValue?
    let b ← right.integerValue?
    (operator.onIntegers? a b).filter isExactInteger

open Binary64

/-- A whole number passes the test that a result is finite. -/
theorem exists_isWhole_requireFinite {x : Binary64} {n : Int} (h : x.IsWhole n) (context : String)
    (position : Nat) : ∃ z, requireFinite context position x = .ok z ∧ z.IsWhole n := by
  refine ⟨x, ?_, h⟩
  rw [requireFinite, h.isFinite, if_pos rfl]

/-- A sign makes of a whole number the one with this sign. -/
theorem Sign.isWhole_apply {x : Binary64} {n : Int} (h : x.IsWhole n) (sign : Sign) :
    (sign.apply x).IsWhole (sign.onInteger n) := by
  cases sign with
  | plus => exact h
  | minus => exact h.neg

/-- **An operator is exact on integers.** Where two whole numbers have an integer up to 2⁵³ as
result, the operator gives this integer. -/
theorem Operator.exists_isWhole_apply {operator : Operator} {x y : Binary64} {a b c : Int}
    (hx : x.IsWhole a) (hy : y.IsWhole b) (h : operator.onIntegers? a b = some c)
    (hb : b.natAbs ≤ 2 ^ 53) (hc : c.natAbs ≤ 2 ^ 53) (rightStart start : Nat) :
    ∃ z, operator.apply x y rightStart start = .ok z ∧ z.IsWhole c := by
  cases operator with
  | add =>
    cases h
    exact exists_isWhole_requireFinite (isWhole_add hx hy hc) _ _
  | sub =>
    cases h
    exact exists_isWhole_requireFinite (isWhole_sub hx hy hc) _ _
  | mul =>
    cases h
    exact exists_isWhole_requireFinite (isWhole_mul hx hy hc) _ _
  | div =>
    obtain ⟨⟨hzero, hdvd⟩, hquotient⟩ := Option.ite_none_right_eq_some.mp h
    cases hquotient
    rw [← Int.ediv_mul_cancel hdvd] at hx
    rw [apply, quotient, hy.isZero_eq, decide_eq_false hzero, if_neg Bool.false_ne_true]
    exact exists_isWhole_requireFinite (isWhole_div hx hy hzero hc) _ _
  | mod =>
    obtain ⟨hzero, hremainder⟩ := Option.ite_none_right_eq_some.mp h
    cases hremainder
    exact ⟨_, modulo_eq_ok hx.roundsTo hy.roundsTo hzero hb rightStart start⟩
  | pow =>
    obtain ⟨hnonneg, hpower⟩ := Option.ite_none_right_eq_some.mp h
    cases hpower
    -- neither of the two tests in front of a power fails
    rw [apply, power, hy.isBelowZero_eq, decide_eq_false (Int.not_lt.mpr hnonneg), Bool.and_false,
      if_neg Bool.false_ne_true, hy.isIntegral, Bool.not_true, Bool.and_false,
      if_neg Bool.false_ne_true]
    rw [← Int.toNat_of_nonneg hnonneg] at hy
    exact exists_isWhole_requireFinite (isWhole_pow hx hy hc) _ _

/-- The value of an expression of integers is the one that it has among the integers. -/
theorem Expr.exists_value_of_integerValue? {e : Expr} {n : Int} (h : e.integerValue? = some n) :
    n.natAbs ≤ 2 ^ 53 ∧ ∃ x, e.value = .ok x ∧ x.IsWhole n := by
  induction e generalizing n with
  | number x s =>
    obtain ⟨hvalue, hsmall⟩ := Option.filter_eq_some_iff.mp h
    have hwhole := toInt?_eq_some_iff.mp hvalue
    exact ⟨of_decide_eq_true hsmall, exists_isWhole_requireFinite hwhole _ _⟩
  | signed sign operand s ih =>
    obtain ⟨hvalue, hsmall⟩ := Option.filter_eq_some_iff.mp h
    obtain ⟨k, hk, rfl⟩ := Option.map_eq_some_iff.mp hvalue
    obtain ⟨-, x, hx, hwhole⟩ := ih hk
    refine ⟨of_decide_eq_true hsmall, sign.apply x, ?_, sign.isWhole_apply hwhole⟩
    rw [value, hx]
    rfl
  | binary operator left right s ihl ihr =>
    obtain ⟨a, ha, h⟩ := Option.bind_eq_some_iff.mp h
    obtain ⟨b, hb, h⟩ := Option.bind_eq_some_iff.mp h
    obtain ⟨hvalue, hsmall⟩ := Option.filter_eq_some_iff.mp h
    obtain ⟨-, x, hx, hxwhole⟩ := ihl ha
    obtain ⟨hbsmall, y, hy, hywhole⟩ := ihr hb
    have hn : n.natAbs ≤ 2 ^ 53 := of_decide_eq_true hsmall
    obtain ⟨z, hz, hzwhole⟩ := Operator.exists_isWhole_apply hxwhole hywhole hvalue hbsmall hn
      right.span.start s.start
    refine ⟨hn, z, ?_, hzwhole⟩
    rw [value, hx, ← hz, hy]
    rfl

/-- **An expression of integers is evaluated exactly.** If all leaves are integers, every quotient
comes out even, no divisor is zero, no exponent is negative, and no node has a value above 2⁵³ in
size, then the expression is evaluated to the number that equals its value among the integers,
whatever limit leaves room for its height. -/
theorem integer_value_exact {e : Expr} {n : Int} {limit : Nat} (h : e.integerValue? = some n)
    (hlimit : e.height ≤ limit) : ∃ x, evaluate limit e = .ok x ∧ x.IsWhole n := by
  obtain ⟨-, hvalue⟩ := Expr.exists_value_of_integerValue? h
  rwa [evaluate_eq, Expr.valueWithin_eq_value hlimit]

/-- In `(-7%3)^10/(-4)+0*-5` the product is negative zero, and the sum is -256. -/
theorem integer_value_exact_negative_zero :
    let leaf (k start : Nat) : Expr := .number (.ofNat k) ⟨start, start + 1⟩
    let remainder : Expr := .combine .mod (.withSign .minus ⟨1, 2⟩ (leaf 7 2)) (leaf 3 4)
    let quotient : Expr := .combine .div (.combine .pow remainder (.number (.ofNat 10) ⟨7, 9⟩))
      (.withSign .minus ⟨11, 12⟩ (leaf 4 12))
    let product : Expr := .combine .mul (leaf 0 15) (.withSign .minus ⟨17, 18⟩ (leaf 5 18))
    let e : Expr := .combine .add quotient product
    e.integerValue? = some (-256) ∧ e.height ≤ 6 ∧ evaluate 6 product = .ok (.finite true .zero) ∧
      ∃ x, evaluate 6 e = .ok x ∧ x.IsWhole (-256) := by
  intro leaf remainder quotient product e
  have h : e.integerValue? = some (-256) := by decide +kernel
  have hlimit : e.height ≤ 6 := by decide +kernel
  exact ⟨h, hlimit, by decide +kernel, integer_value_exact h hlimit⟩

end Calculator
