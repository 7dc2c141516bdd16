import Calculator.Proofs.FiniteValues
import Calculator.Proofs.IntegerArithmetic

/-!
# The sign of a zero

Numbers that are equal as numbers are the same or two zeros. Whether a number is zero, below zero or
whole has nothing to do with the sign of a zero, and operands that differ in such signs only have
results that do so too, or errors that are equal. So equal expressions have equal outcomes.
-/

namespace Calculator

/-! ## Equality of outcomes -/

/-- Equality of errors: the same kind, context, limit and place, and operands that are equal as
numbers. -/
def EvaluationError.eqv : EvaluationError → EvaluationError → Bool
  | divisionByZero p, divisionByZero q => p == q
  | moduloByZero p, moduloByZero q => p == q
  | domain x y p, domain z w q => x.eqv z && y.eqv w && p == q
  | zeroToNegativePower p, zeroToNegativePower q => p == q
  | overflow c p, overflow d q => c == d && p == q
  | depthExceeded k p, depthExceeded l q => k == l && p == q
  | _, _ => false

/-- Equality of outcomes: values that are equal as numbers, or errors that are equal. -/
def outcomeEqv : Except EvaluationError Binary64 → Except EvaluationError Binary64 → Bool
  | .ok x, .ok y => x.eqv y
  | .error e, .error f => e.eqv f
  | _, _ => false

namespace Binary64

variable {x x' y y' z : Binary64}

/-! ## Equal numbers -/

/-- Zeros are equal, whatever their signs. -/
theorem eqv_zeros (a b : Bool) : (finite a .zero).eqv (.finite b .zero) = true := by
  simp [eqv, Magnitude.zero]

/-- Equal numbers are the same or two zeros. -/
theorem eqv_cases (h : x.eqv y = true) :
    x = y ∨ ∃ a b, x = .finite a .zero ∧ y = .finite b .zero := by
  cases x with
  | finite a m =>
    cases y with
    | finite b n =>
      simp only [eqv, Bool.and_eq_true, beq_iff_eq, Bool.or_eq_true] at h
      obtain ⟨rfl, rfl | hm⟩ := h
      · exact .inl rfl
      · obtain rfl := Magnitude.eq_zero hm
        exact .inr ⟨a, b, rfl, rfl⟩
    | infinite b => cases h
    | nan => cases h
  | infinite a =>
    cases y with
    | finite b n => cases h
    | infinite b =>
      obtain rfl : a = b := beq_iff_eq.mp h
      exact .inl rfl
    | nan => cases h
  | nan => cases y <;> cases h

/-- Every number equals itself. -/
theorem eqv_self (h : x ≠ .nan) : x.eqv x = true := by
  cases x with
  | finite a m => simp [eqv]
  | infinite a => exact beq_self_eq_true a
  | nan => exact absurd rfl h

/-- A finite number equals itself. -/
theorem eqv_self_of_isFinite (hx : x.isFinite = true) : x.eqv x = true := by
  refine eqv_self ?_
  rintro rfl
  cases hx

/-- Equality of numbers goes both ways. -/
theorem eqv_symm (h : x.eqv y = true) : y.eqv x = true := by
  rcases eqv_cases h with rfl | ⟨a, b, rfl, rfl⟩
  · exact h
  · exact eqv_zeros b a

/-- Numbers that equal the same number are equal. -/
theorem eqv_trans (h : x.eqv y = true) (h' : y.eqv z = true) : x.eqv z = true := by
  rcases eqv_cases h with rfl | ⟨a, b, rfl, rfl⟩
  · exact h'
  · rcases eqv_cases h' with rfl | ⟨-, c, -, rfl⟩
    · exact h
    · exact eqv_zeros a c

/-! ## Comparisons -/

/-- Equal numbers are both finite or both not. -/
theorem isFinite_eq_of_eqv (h : x.eqv y = true) : x.isFinite = y.isFinite := by
  rcases eqv_cases h with rfl | ⟨a, b, rfl, rfl⟩ <;> rfl

/-- Equal numbers are both zeros or both not. -/
theorem isZero_eq_of_eqv (h : x.eqv y = true) : x.isZero = y.isZero := by
  rcases eqv_cases h with rfl | ⟨a, b, rfl, rfl⟩ <;> rfl

/-- No zero is below zero. -/
theorem isBelowZero_zero (a : Bool) : (finite a .zero).isBelowZero = false :=
  Bool.and_false a

/-- Equal numbers are both below zero or both not. -/
theorem isBelowZero_eq_of_eqv (h : x.eqv y = true) : x.isBelowZero = y.isBelowZero := by
  rcases eqv_cases h with rfl | ⟨a, b, rfl, rfl⟩
  · rfl
  · rw [isBelowZero_zero, isBelowZero_zero]

/-- Equal numbers are both whole or both not. -/
theorem isIntegral_eq_of_eqv (h : x.eqv y = true) : x.isIntegral = y.isIntegral := by
  rcases eqv_cases h with rfl | ⟨a, b, rfl, rfl⟩ <;> rfl

/-! ## Operations with a zero -/

/-- Zero has no units. -/
theorem units_zero : Magnitude.zero.units = 0 := rfl

/-- A number and a zero add up to the number. -/
theorem add_zero_eqv (hx : x.isFinite = true) (b : Bool) :
    (x.add (.finite b .zero)).eqv x = true := by
  cases x with
  | finite a m =>
    rw [add, units_zero, Nat.add_zero, Nat.sub_zero, Magnitude.round_units]
    split
    · exact eqv_self_of_isFinite rfl
    · split
      · next hzero =>
        obtain rfl := Magnitude.eq_zero (m.units_eq_zero_iff.mp hzero)
        exact eqv_zeros _ _
      · next hne =>
        rw [if_pos (Nat.pos_of_ne_zero hne)]
        exact eqv_self_of_isFinite rfl
  | infinite => cases hx
  | nan => cases hx

/-- A zero and a number add up to the number. -/
theorem zero_add_eqv (a : Bool) (hy : y.isFinite = true) :
    ((finite a .zero).add y).eqv y = true := by
  cases y with
  | finite b n =>
    rw [add, units_zero, Nat.zero_add, Nat.sub_zero, Magnitude.round_units]
    split
    · next hsign =>
      rw [hsign]
      exact eqv_self_of_isFinite rfl
    · split
      · next hzero =>
        obtain rfl := Magnitude.eq_zero (n.units_eq_zero_iff.mp hzero.symm)
        exact eqv_zeros _ _
      · rw [if_neg (Nat.not_lt_zero _), Magnitude.round_units]
        exact eqv_self_of_isFinite rfl
  | infinite => cases hy
  | nan => cases hy

/-- A product of a number and a zero is a zero. -/
theorem exists_mul_zero (hx : x.isFinite = true) (b : Bool) :
    ∃ c, x.mul (.finite b .zero) = .finite c .zero := by
  cases x with
  | finite a m =>
    rw [mul, units_zero, Nat.mul_zero, Magnitude.round_zero _ unitsPerOne_pos]
    exact ⟨_, rfl⟩
  | infinite => cases hx
  | nan => cases hx

/-- A product of a zero and a number is a zero. -/
theorem exists_zero_mul (a : Bool) (hy : y.isFinite = true) :
    ∃ c, (finite a .zero).mul y = .finite c .zero := by
  cases y with
  | finite b n =>
    rw [mul, units_zero, Nat.zero_mul, Magnitude.round_zero _ unitsPerOne_pos]
    exact ⟨_, rfl⟩
  | infinite => cases hy
  | nan => cases hy

/-- A quotient of a zero by a number that is not zero is a zero. -/
theorem exists_zero_div (a : Bool) (hy : y.isFinite = true) (hzero : y.isZero = false) :
    ∃ c, (finite a .zero).div y = .finite c .zero := by
  cases y with
  | finite b n =>
    have hn : n.significand ≠ 0 := by simpa [isZero] using hzero
    have hunits : 0 < n.units := Nat.pos_of_ne_zero fun h => hn (n.units_eq_zero_iff.mp h)
    rw [div, if_neg hn, units_zero, Nat.zero_mul, Magnitude.round_zero _ hunits]
    exact ⟨_, rfl⟩
  | infinite => cases hy
  | nan => cases hy

/-- The whole number nearest to a zero is the zero itself. -/
theorem roundHalfAway_zero (a : Bool) :
    (finite a .zero).roundHalfAway = .finite a .zero := by
  obtain ⟨n, ones, hround, hn, hle, -⟩ := exists_roundHalfAway a .zero
  have hone := unitsPerOne_pos
  rw [units_zero] at hle
  obtain rfl : ones = 0 := by
    refine Nat.eq_zero_of_not_pos fun hpos => ?_
    have hmul := Nat.mul_le_mul_right unitsPerOne hpos
    omega
  rw [Nat.zero_mul] at hn
  rw [hround, Magnitude.eq_zero (n.units_eq_zero_iff.mp hn)]

/-- The remainder of a zero by a number that is not zero is positive zero. -/
theorem flooredRemainder_zero (a : Bool) (hy : y.isFinite = true) (hzero : y.isZero = false) :
    flooredRemainder (.finite a .zero) y = .zero := by
  cases y with
  | finite b n =>
    have hn : n.significand ≠ 0 := by simpa [isZero] using hzero
    obtain ⟨r, hrem, hr⟩ := exists_rem_eq a b .zero hn
    rw [units_zero, Nat.zero_mod] at hr
    obtain rfl := Magnitude.eq_zero (r.units_eq_zero_iff.mp hr)
    rw [flooredRemainder, hrem]
    rfl
  | infinite => cases hy
  | nan => cases hy

/-- Every number to the power of a zero is one. -/
theorem pow_eq_one (x : Binary64) (hzero : y.isZero = true) :
    x.pow y = round false unitsPerOne 1 := by
  unfold pow
  rw [hzero]
  exact if_pos (Bool.true_or _)

/-- A power of a zero to an exponent above zero is a zero. -/
theorem exists_zero_pow (a : Bool) (hy : y.isFinite = true) (hzero : y.isZero = false)
    (hbelow : y.isBelowZero = false) : ∃ c, (finite a .zero).pow y = .finite c .zero := by
  cases y with
  | finite b n =>
    have hn : n.significand ≠ 0 := by simpa [isZero] using hzero
    obtain rfl : b = false := by simpa [isBelowZero, hn] using hbelow
    have hone : finite a .zero ≠ round false unitsPerOne 1 := fun h =>
      Nat.zero_ne_one (eq_one_of_ones (units_zero.trans (Nat.zero_mul _).symm) h).2
    rw [pow, hzero, decide_eq_false hone, if_neg Bool.false_ne_true]
    exact ⟨_, rfl⟩
  | infinite => cases hy
  | nan => cases hy

/-! ## Operations on equal numbers -/

/-- Equal numbers have equal negatives. -/
theorem neg_eqv (h : x.eqv x' = true) : x.neg.eqv x'.neg = true := by
  rcases eqv_cases h with rfl | ⟨a, b, rfl, rfl⟩
  · refine eqv_self ?_
    cases x with
    | nan => cases h
    | _ => exact nofun
  · exact eqv_zeros _ _

section

variable (hx : x.isFinite = true) (hy : y.isFinite = true) (hxx : x.eqv x' = true)
  (hyy : y.eqv y' = true)

include hx hy hxx hyy

/-- Equal numbers have equal sums. -/
theorem add_eqv : (x.add y).eqv (x'.add y') = true := by
  have hy' : y'.isFinite = true := isFinite_eq_of_eqv hyy ▸ hy
  rcases eqv_cases hxx with rfl | ⟨a, b, rfl, rfl⟩
  · rcases eqv_cases hyy with rfl | ⟨a, b, rfl, rfl⟩
    · exact eqv_self (add_ne_nan hx hy)
    · exact eqv_trans (add_zero_eqv hx a) (eqv_symm (add_zero_eqv hx b))
  · exact eqv_trans (zero_add_eqv a hy) (eqv_trans hyy (eqv_symm (zero_add_eqv b hy')))

/-- Equal numbers have equal products. -/
theorem mul_eqv : (x.mul y).eqv (x'.mul y') = true := by
  have hy' : y'.isFinite = true := isFinite_eq_of_eqv hyy ▸ hy
  rcases eqv_cases hxx with rfl | ⟨a, b, rfl, rfl⟩
  · rcases eqv_cases hyy with rfl | ⟨a, b, rfl, rfl⟩
    · exact eqv_self (mul_ne_nan hx hy)
    · obtain ⟨c, hc⟩ := exists_mul_zero hx a
      obtain ⟨d, hd⟩ := exists_mul_zero hx b
      rw [hc, hd]
      exact eqv_zeros c d
  · obtain ⟨c, hc⟩ := exists_zero_mul a hy
    obtain ⟨d, hd⟩ := exists_zero_mul b hy'
    rw [hc, hd]
    exact eqv_zeros c d

/-- Equal numbers have equal quotients, if the divisor is not zero. -/
theorem div_eqv (hzero : y.isZero = false) : (x.div y).eqv (x'.div y') = true := by
  rcases eqv_cases hyy with rfl | ⟨c, d, rfl, rfl⟩
  · rcases eqv_cases hxx with rfl | ⟨a, b, rfl, rfl⟩
    · exact eqv_self (div_ne_nan hx hy hzero)
    · obtain ⟨c, hc⟩ := exists_zero_div a hy hzero
      obtain ⟨d, hd⟩ := exists_zero_div b hy hzero
      rw [hc, hd]
      exact eqv_zeros c d
  · cases hzero

/-- Equal numbers have equal remainders, if the divisor is not zero. -/
theorem flooredRemainder_eqv (hzero : y.isZero = false) :
    (flooredRemainder x y).eqv (flooredRemainder x' y') = true := by
  rcases eqv_cases hyy with rfl | ⟨c, d, rfl, rfl⟩
  · rcases eqv_cases hxx with rfl | ⟨a, b, rfl, rfl⟩
    · exact eqv_self_of_isFinite (isFinite_flooredRemainder hx hy hzero)
    · rw [flooredRemainder_zero a hy hzero, flooredRemainder_zero b hy hzero]
      exact eqv_zeros false false
  · cases hzero

/-- Equal numbers have equal powers, if they have powers that are real numbers. -/
theorem pow_eqv (hbelow : x.isZero = true → y.isBelowZero = false)
    (hwhole : x.isBelowZero = true → y.isIntegral = true) :
    (x.pow y).eqv (x'.pow y') = true := by
  cases hzero : y.isZero with
  | true =>
    have hzero' : y'.isZero = true := isZero_eq_of_eqv hyy ▸ hzero
    rw [pow_eq_one x hzero, pow_eq_one x' hzero']
    exact eqv_self (round_ne_nan _ _ _)
  | false =>
    rcases eqv_cases hyy with rfl | ⟨c, d, rfl, rfl⟩
    · rcases eqv_cases hxx with rfl | ⟨a, b, rfl, rfl⟩
      · exact eqv_self (pow_ne_nan hx hy hwhole)
      · obtain ⟨c, hc⟩ := exists_zero_pow a hy hzero (hbelow rfl)
        obtain ⟨d, hd⟩ := exists_zero_pow b hy hzero (hbelow rfl)
        rw [hc, hd]
        exact eqv_zeros c d
    · cases hzero

end

/-- Equal numbers are rounded to equal whole numbers. -/
theorem roundHalfAway_eqv (hx : x.isFinite = true) (hxx : x.eqv x' = true) :
    x.roundHalfAway.eqv x'.roundHalfAway = true := by
  rcases eqv_cases hxx with rfl | ⟨a, b, rfl, rfl⟩
  · exact eqv_self_of_isFinite (isFinite_roundHalfAway hx)
  · rw [roundHalfAway_zero, roundHalfAway_zero]
    exact eqv_zeros a b

end Binary64

/-! ## Equal operands -/

/-- Equal numbers are both required to be finite with equal outcomes. -/
theorem requireFinite_eqv {x x' : Binary64} (hxx : x.eqv x' = true) (context : String) (p : Nat) :
    outcomeEqv (requireFinite context p x) (requireFinite context p x') = true := by
  rw [requireFinite, requireFinite, Binary64.isFinite_eq_of_eqv hxx]
  split
  · exact hxx
  · simp [outcomeEqv, EvaluationError.eqv]

/-- A sign before equal numbers makes equal numbers. -/
theorem Sign.apply_eqv (sign : Sign) {x x' : Binary64} (hxx : x.eqv x' = true) :
    (sign.apply x).eqv (sign.apply x') = true := by
  cases sign with
  | plus => exact hxx
  | minus => exact Binary64.neg_eqv hxx

namespace Operator

variable {x x' y y' : Binary64} (hx : x.isFinite = true) (hy : y.isFinite = true)
  (hxx : x.eqv x' = true) (hyy : y.eqv y' = true) (rightStart start : Nat)

include hx hy hxx hyy

/-- Equal operands have quotients with equal outcomes. -/
theorem quotient_eqv :
    outcomeEqv (quotient x y rightStart start) (quotient x' y' rightStart start) = true := by
  rw [quotient, quotient, ← Binary64.isZero_eq_of_eqv hyy]
  split
  · simp [outcomeEqv, EvaluationError.eqv]
  · next hzero =>
    exact requireFinite_eqv (Binary64.div_eqv hx hy hxx hyy (Bool.eq_false_iff.mpr hzero)) _ _

/-- Equal operands have remainders with equal outcomes. -/
theorem modulo_eqv :
    outcomeEqv (modulo x y rightStart start) (modulo x' y' rightStart start) = true := by
  have hround := Binary64.roundHalfAway_eqv hy hyy
  rw [modulo, modulo, ← Binary64.isZero_eq_of_eqv hround]
  split
  · simp [outcomeEqv, EvaluationError.eqv]
  · next hzero =>
    refine requireFinite_eqv (Binary64.flooredRemainder_eqv ?_ ?_ ?_ hround ?_) _ _
    · exact Binary64.isFinite_roundHalfAway hx
    · exact Binary64.isFinite_roundHalfAway hy
    · exact Binary64.roundHalfAway_eqv hx hxx
    · exact Bool.eq_false_iff.mpr hzero

/-- Equal operands have powers with equal outcomes. -/
theorem power_eqv : outcomeEqv (power x y start) (power x' y' start) = true := by
  rw [power, power, ← Binary64.isZero_eq_of_eqv hxx, ← Binary64.isBelowZero_eq_of_eqv hyy,
    ← Binary64.isBelowZero_eq_of_eqv hxx, ← Binary64.isIntegral_eq_of_eqv hyy]
  split
  · simp [outcomeEqv, EvaluationError.eqv]
  · next hbelow =>
    split
    · simp [outcomeEqv, EvaluationError.eqv, hxx, hyy]
    · next hwhole =>
      refine requireFinite_eqv (Binary64.pow_eqv hx hy hxx hyy (fun h => ?_) fun h => ?_) _ _
      · simpa [h] using hbelow
      · simpa [h] using hwhole

/-- Equal operands have equal outcomes, whatever the operator. -/
theorem apply_eqv (operator : Operator) : outcomeEqv (operator.apply x y rightStart start)
    (operator.apply x' y' rightStart start) = true := by
  cases operator with
  | add => exact requireFinite_eqv (Binary64.add_eqv hx hy hxx hyy) _ _
  | sub =>
    have hneg : y.neg.isFinite = true := by rw [Binary64.isFinite_neg, hy]
    exact requireFinite_eqv (Binary64.add_eqv hx hneg hxx (Binary64.neg_eqv hyy)) _ _
  | mul => exact requireFinite_eqv (Binary64.mul_eqv hx hy hxx hyy) _ _
  | div => exact quotient_eqv hx hy hxx hyy rightStart start
  | mod => exact modulo_eqv hx hy hxx hyy rightStart start
  | pow => exact power_eqv hx hy hxx hyy start

end Operator

/-! ## Equal expressions -/

/-- Equal expressions have the same span. -/
theorem Expr.span_eq_of_eqv {a b : Expr} (h : a.eqv b = true) : a.span = b.span := by
  cases a <;> cases b <;> simp_all [eqv, span]

/-- Equal outcomes are both values or both errors. -/
theorem outcomeEqv_cases {r r' : Except EvaluationError Binary64} (h : outcomeEqv r r' = true) :
    (∃ x x', r = .ok x ∧ r' = .ok x' ∧ x.eqv x' = true) ∨
      ∃ e e', r = .error e ∧ r' = .error e' ∧ e.eqv e' = true := by
  cases r with
  | ok x =>
    cases r' with
    | ok x' => exact .inl ⟨x, x', rfl, rfl, h⟩
    | error e' => cases h
  | error e =>
    cases r' with
    | ok x' => cases h
    | error e' => exact .inr ⟨e, e', rfl, rfl, h⟩

/-- Equal expressions have equal outcomes with the same room for nodes. -/
theorem Expr.valueWithin_eqv (limit room : Nat) {a b : Expr} (h : a.eqv b = true) :
    outcomeEqv (a.valueWithin limit room) (b.valueWithin limit room) = true := by
  induction a generalizing b room with
  | number x s =>
    cases b with
    | number y t =>
      simp only [eqv, Bool.and_eq_true, beq_iff_eq] at h
      obtain ⟨hxy, rfl⟩ := h
      cases room with
      | zero => simp [valueWithin, outcomeEqv, EvaluationError.eqv, span]
      | succ room => exact requireFinite_eqv hxy _ _
    | signed => cases h
    | binary => cases h
  | signed sign operand s ih =>
    cases b with
    | signed sign' operand' t =>
      simp only [eqv, Bool.and_eq_true, beq_iff_eq] at h
      obtain ⟨⟨rfl, hoperand⟩, rfl⟩ := h
      cases room with
      | zero => simp [valueWithin, outcomeEqv, EvaluationError.eqv, span]
      | succ room =>
        rw [valueWithin, valueWithin]
        rcases outcomeEqv_cases (ih room hoperand) with
          ⟨x, x', hx, hx', hxx⟩ | ⟨e, e', he, he', hee⟩
        · rw [hx, hx']
          exact sign.apply_eqv hxx
        · rw [he, he']
          exact hee
    | number => cases h
    | binary => cases h
  | binary operator left right s ihl ihr =>
    cases b with
    | binary operator' left' right' t =>
      simp only [eqv, Bool.and_eq_true, beq_iff_eq] at h
      obtain ⟨⟨⟨rfl, hleft⟩, hright⟩, rfl⟩ := h
      cases room with
      | zero => simp [valueWithin, outcomeEqv, EvaluationError.eqv, span]
      | succ room =>
        have hfinite := left.namesFinite_valueWithin limit room
        have hfinite' := right.namesFinite_valueWithin limit room
        rw [valueWithin, valueWithin, ← span_eq_of_eqv hright]
        rcases outcomeEqv_cases (ihl room hleft) with ⟨x, x', hx, hx', hxx⟩ | ⟨e, e', he, he', hee⟩
        · rw [hx] at hfinite
          rcases outcomeEqv_cases (ihr room hright) with
            ⟨y, y', hy, hy', hyy⟩ | ⟨e, e', he, he', hee⟩
          · rw [hy] at hfinite'
            rw [hx, hx', hy, hy']
            exact Operator.apply_eqv hfinite hfinite' hxx hyy _ _ operator
          · rw [hx, hx', he, he']
            exact hee
        · rw [he, he']
          exact hee
    | number => cases h
    | signed => cases h

/-- **Equal expressions have equal outcomes.** If two expressions are equal, with the same spans and
with leaves that are equal as numbers, so that a zero may have another sign in the one than in the
other, they have values that are equal as numbers or errors that are equal, whatever the limit. -/
theorem evaluate_eqv {a b : Expr} (h : a.eqv b = true) (limit : Nat) :
    outcomeEqv (evaluate limit a) (evaluate limit b) = true := by
  rw [evaluate_eq, evaluate_eq]
  exact Expr.valueWithin_eqv limit limit h

/-- The cubes of the two zeros differ in their signs. As values they are equal, and as divisors they
are refused with the same error. -/
theorem evaluate_eqv_cube :
    let cube (negative : Bool) : Expr := .combine .pow
      (.number (.finite negative .zero) ⟨4, 5⟩) (.number (.ofNat 3) ⟨8, 9⟩)
    let quotient (negative : Bool) : Expr :=
      .combine .div (.number (.ofNat 1) ⟨0, 1⟩) (cube negative)
    (cube true).eqv (cube false) = true ∧ (quotient true).eqv (quotient false) = true ∧
      evaluate 2 (cube true) = .ok (.finite true .zero) ∧
      outcomeEqv (evaluate 2 (cube true)) (evaluate 2 (cube false)) = true ∧
      evaluate 3 (quotient true) = .error (.divisionByZero 4) ∧
      outcomeEqv (evaluate 3 (quotient true)) (evaluate 3 (quotient false)) = true := by
  intro cube quotient
  have hcube : (cube true).eqv (cube false) = true := by decide +kernel
  have hquotient : (quotient true).eqv (quotient false) = true := by decide +kernel
  exact ⟨hcube, hquotient, by decide +kernel, evaluate_eqv hcube 2, by decide +kernel,
    evaluate_eqv hquotient 3⟩

end Calculator
