import Calculator.Proofs.EvaluationSteps
import Calculator.Proofs.FiniteArithmetic

/-!
# Values are finite

An operator refuses the operands that have no quotient, remainder or power. What it makes of all
others is a number or an infinity, and an infinity is an overflow. So an expression has a finite
value or none, and an error that names operands names finite ones.
-/

namespace Calculator

/-! ## Comparisons with zero -/

namespace Binary64

/-- The zeros are the numbers that equal zero. -/
theorem isZero_eq_eqv (x : Binary64) : x.isZero = x.eqv .zero := by
  cases x with
  | finite a m =>
    rw [Bool.eq_iff_iff]
    simp only [isZero, eqv, zero, Bool.and_eq_true, beq_iff_eq, Bool.or_eq_true]
    constructor
    · intro h
      exact ⟨Magnitude.eq_zero h, .inr h⟩
    · rintro ⟨rfl, -⟩
      rfl
  | infinite => rfl
  | nan => rfl

/-- The numbers below zero are the ones that are less than zero. -/
theorem isBelowZero_eq_lt (x : Binary64) : x.isBelowZero = x.lt .zero := by
  cases x with
  | finite a m =>
    have hunits := m.units_eq_zero_iff
    have hzero : Magnitude.zero.signed false = 0 := rfl
    rw [Bool.eq_iff_iff]
    simp only [isBelowZero, lt, zero, hzero, Bool.and_eq_true, bne_iff_ne, decide_eq_true_eq]
    cases a with
    | false => simp [Magnitude.signed]
    | true =>
      simp only [Magnitude.signed, if_true, true_and]
      omega
  | infinite => rfl
  | nan => rfl

/-- A zero is not less than zero. -/
theorem lt_zero_of_eqv {x : Binary64} (h : x.eqv .zero = true) : x.lt .zero = false := by
  rw [← isZero_eq_eqv] at h
  rw [← isBelowZero_eq_lt]
  cases x with
  | finite a m =>
    have hm : m.significand = 0 := beq_iff_eq.mp h
    rw [isBelowZero, hm, bne_self_eq_false, Bool.and_false]
  | infinite => cases h
  | nan => cases h

end Binary64

/-! ## What operators refuse -/

namespace Operator

/-- The operands that an operator refuses: a divisor of zero, of either sign; a divisor of a
remainder that is less than one half; zero to a negative power, and a negative number to a power
that is not whole. -/
def Refuses (operator : Operator) (x y : Binary64) : Prop :=
  match operator with
  | div => y.eqv .zero = true
  | mod => y.abs.lt .half = true
  | pow => (x.eqv .zero = true ∧ y.lt .zero = true) ∨ (x.lt .zero = true ∧ y.isIntegral = false)
  | _ => False

/-- The number that an operator makes of two numbers. -/
def result : Operator → Binary64 → Binary64 → Binary64
  | add, x, y => x.add y
  | sub, x, y => x.sub y
  | mul, x, y => x.mul y
  | div, x, y => x.div y
  | mod, x, y => flooredRemainder x.roundHalfAway y.roundHalfAway
  | pow, x, y => x.pow y

/-- The name of an operator in an error. -/
def context (operator : Operator) : String :=
  "'" ++ operator.symbol.toString ++ "'"

/-- The outcome of an operator with the operands `x` and `y`: it is an error of one kind exactly
for the operands that are refused for that reason, an overflow exactly where the result is infinite,
and else the result. A result is never undefined, and a remainder fails for no reason but its
divisor. -/
structure HasOutcome (operator : Operator) (x y : Binary64) (rightStart start : Nat)
    (outcome : Except EvaluationError Binary64) : Prop where
  divisionByZero_iff : ∀ p, outcome = .error (.divisionByZero p) ↔
    operator = .div ∧ y.eqv .zero = true ∧ p = rightStart
  moduloByZero_iff : ∀ p, outcome = .error (.moduloByZero p) ↔
    operator = .mod ∧ y.abs.lt .half = true ∧ p = rightStart
  zeroToNegativePower_iff : ∀ p, outcome = .error (.zeroToNegativePower p) ↔
    operator = .pow ∧ x.eqv .zero = true ∧ y.lt .zero = true ∧ p = start
  domain_iff : ∀ a b p, outcome = .error (.domain a b p) ↔
    operator = .pow ∧ x.lt .zero = true ∧ y.isIntegral = false ∧ a = x ∧ b = y ∧ p = start
  overflow_iff : ∀ c p, outcome = .error (.overflow c p) ↔ ¬ operator.Refuses x y ∧
    (∃ negative, operator.result x y = .infinite negative) ∧ c = operator.context ∧ p = start
  ok_iff : ∀ z, outcome = .ok z ↔ ¬ operator.Refuses x y ∧ operator.result x y = z ∧
    z.isFinite = true
  result_ne_nan : ¬ operator.Refuses x y → operator.result x y ≠ .nan
  error_of_mod : operator = .mod → ∀ err, outcome = .error err → err = .moduloByZero rightStart

variable {operator : Operator} {x y : Binary64} {rightStart start : Nat}

/-- An operator has the outcome of its result where it refuses nothing: the result if it is finite,
and else an overflow. -/
theorem hasOutcome_of_not_refuses (hfree : ¬ operator.Refuses x y)
    (hne : operator.result x y ≠ .nan)
    (hmod : operator = .mod → (operator.result x y).isFinite = true) :
    operator.HasOutcome x y rightStart start
      (requireFinite operator.context start (operator.result x y)) := by
  have herror : ∀ err, (∀ c p, err ≠ .overflow c p) →
      requireFinite operator.context start (operator.result x y) ≠ .error err := by
    intro err herr h
    rw [requireFinite] at h
    split at h
    · cases h
    · cases h
      exact herr _ _ rfl
  constructor
  · intro p
    refine iff_of_false (herror _ nofun) ?_
    rintro ⟨rfl, hy, -⟩
    exact hfree hy
  · intro p
    refine iff_of_false (herror _ nofun) ?_
    rintro ⟨rfl, hy, -⟩
    exact hfree hy
  · intro p
    refine iff_of_false (herror _ nofun) ?_
    rintro ⟨rfl, hx, hy, -⟩
    exact hfree (.inl ⟨hx, hy⟩)
  · intro a b p
    refine iff_of_false (herror _ nofun) ?_
    rintro ⟨rfl, hx, hy, -⟩
    exact hfree (.inr ⟨hx, hy⟩)
  · intro c p
    cases hresult : operator.result x y with
    | finite negative m => simp [requireFinite, Binary64.isFinite]
    | infinite negative =>
      simp [requireFinite, Binary64.isFinite, hfree, eq_comm (a := c), eq_comm (a := p)]
    | nan => exact absurd hresult hne
  · intro z
    cases hresult : operator.result x y with
    | finite negative m =>
      simp only [requireFinite, Binary64.isFinite, if_true, Except.ok.injEq, hfree,
        not_false_eq_true, true_and]
      constructor
      · rintro rfl
        exact ⟨rfl, rfl⟩
      · exact fun h => h.1
    | infinite negative =>
      simp only [requireFinite, Binary64.isFinite, Bool.false_eq_true, if_false, reduceCtorEq,
        false_iff]
      rintro ⟨-, rfl, h⟩
      cases h
    | nan => exact absurd hresult hne
  · exact fun _ => hne
  · intro hoperator err h
    rw [requireFinite, if_pos (hmod hoperator)] at h
    cases h

/-- An operator has an error as outcome that is not an overflow, where it refuses its operands for
the reason of this error and for no other one. -/
theorem hasOutcome_of_error {err : EvaluationError} (hrefuses : operator.Refuses x y)
    (hoverflow : ∀ c p, err ≠ .overflow c p)
    (hdiv : ∀ p, err = .divisionByZero p ↔
      operator = .div ∧ y.eqv .zero = true ∧ p = rightStart)
    (hmod : ∀ p, err = .moduloByZero p ↔
      operator = .mod ∧ y.abs.lt .half = true ∧ p = rightStart)
    (hzero : ∀ p, err = .zeroToNegativePower p ↔
      operator = .pow ∧ x.eqv .zero = true ∧ y.lt .zero = true ∧ p = start)
    (hdomain : ∀ a b p, err = .domain a b p ↔
      operator = .pow ∧ x.lt .zero = true ∧ y.isIntegral = false ∧ a = x ∧ b = y ∧ p = start)
    (herr : operator = .mod → err = .moduloByZero rightStart) :
    operator.HasOutcome x y rightStart start (.error err) where
  divisionByZero_iff p := by rw [Except.error.injEq, hdiv]
  moduloByZero_iff p := by rw [Except.error.injEq, hmod]
  zeroToNegativePower_iff p := by rw [Except.error.injEq, hzero]
  domain_iff a b p := by rw [Except.error.injEq, hdomain]
  overflow_iff c p := by
    rw [Except.error.injEq]
    exact iff_of_false (hoverflow c p) fun h => h.1 hrefuses
  ok_iff z := iff_of_false nofun fun h => h.1 hrefuses
  result_ne_nan h := absurd hrefuses h
  error_of_mod hoperator err' h := by
    cases h
    exact herr hoperator

/-- The error of an operator that refuses its operands says why it does. -/
theorem hasOutcome_of_refuses (hy : y.isFinite = true) (hrefuses : operator.Refuses x y) :
    operator.HasOutcome x y rightStart start (operator.apply x y rightStart start) := by
  cases operator with
  | add => exact hrefuses.elim
  | sub => exact hrefuses.elim
  | mul => exact hrefuses.elim
  | div =>
    have hzero : y.eqv .zero = true := hrefuses
    rw [apply, quotient, Binary64.isZero_eq_eqv, if_pos hzero]
    apply hasOutcome_of_error hrefuses <;> simp [hzero, eq_comm (a := rightStart)]
  | mod =>
    have hhalf : y.abs.lt .half = true := hrefuses
    rw [apply, modulo, Binary64.isZero_roundHalfAway hy, if_pos hhalf]
    apply hasOutcome_of_error hrefuses <;> simp [hhalf, eq_comm (a := rightStart)]
  | pow =>
    rw [apply, power, Binary64.isZero_eq_eqv, Binary64.isBelowZero_eq_lt,
      Binary64.isBelowZero_eq_lt]
    have hcases := hrefuses
    rcases hcases with ⟨hzero, hlt⟩ | ⟨hlt, hwhole⟩
    · have hnot := Binary64.lt_zero_of_eqv hzero
      rw [hzero, hlt, Bool.and_self, if_pos rfl]
      apply hasOutcome_of_error hrefuses <;> simp [hzero, hlt, hnot, eq_comm (a := start)]
    · have hne : x.eqv .zero = false := by
        refine Bool.eq_false_iff.mpr fun hzero => ?_
        rw [Binary64.lt_zero_of_eqv hzero] at hlt
        cases hlt
      rw [hne, hlt, hwhole, Bool.false_and, if_neg Bool.false_ne_true, Bool.not_false,
        Bool.and_self, if_pos rfl]
      apply hasOutcome_of_error hrefuses <;>
        simp [hlt, hne, hwhole, eq_comm (a := start), eq_comm (a := x), eq_comm (a := y)]

/-- An operator that refuses nothing comes to its result, which is a number or an infinity. -/
theorem hasOutcome_apply_of_not_refuses (hx : x.isFinite = true) (hy : y.isFinite = true)
    (hfree : ¬ operator.Refuses x y) :
    operator.HasOutcome x y rightStart start (operator.apply x y rightStart start) := by
  cases operator with
  | add => exact hasOutcome_of_not_refuses hfree (Binary64.add_ne_nan hx hy) nofun
  | sub =>
    have hneg : y.neg.isFinite = true := by rw [Binary64.isFinite_neg, hy]
    exact hasOutcome_of_not_refuses hfree (Binary64.add_ne_nan hx hneg) nofun
  | mul => exact hasOutcome_of_not_refuses hfree (Binary64.mul_ne_nan hx hy) nofun
  | div =>
    have hzero : y.isZero = false := by
      rw [Binary64.isZero_eq_eqv]
      exact Bool.eq_false_iff.mpr hfree
    rw [apply, quotient, if_neg (by rw [hzero]; exact Bool.false_ne_true)]
    exact hasOutcome_of_not_refuses hfree (Binary64.div_ne_nan hx hy hzero) nofun
  | mod =>
    have hzero : y.roundHalfAway.isZero = false := by
      rw [Binary64.isZero_roundHalfAway hy]
      exact Bool.eq_false_iff.mpr hfree
    have hfinite : (result .mod x y).isFinite = true :=
      isFinite_flooredRemainder (Binary64.isFinite_roundHalfAway hx)
        (Binary64.isFinite_roundHalfAway hy) hzero
    rw [apply, modulo, if_neg (by rw [hzero]; exact Bool.false_ne_true)]
    refine hasOutcome_of_not_refuses hfree (fun hnan => ?_) fun _ => hfinite
    rw [hnan] at hfinite
    cases hfinite
  | pow =>
    have hzero : ¬ (x.isZero && y.isBelowZero) = true := by
      rw [Binary64.isZero_eq_eqv, Binary64.isBelowZero_eq_lt, Bool.and_eq_true]
      exact fun h => hfree (.inl h)
    have hwhole : x.isBelowZero = true → y.isIntegral = true := by
      rw [Binary64.isBelowZero_eq_lt]
      intro hlt
      cases hwhole : y.isIntegral with
      | true => rfl
      | false => exact absurd (.inr ⟨hlt, hwhole⟩) hfree
    have hdomain : ¬ (x.isBelowZero && !y.isIntegral) = true := by
      rw [Bool.and_eq_true, Bool.not_eq_true']
      rintro ⟨hlt, h⟩
      rw [hwhole hlt] at h
      cases h
    rw [apply, power, if_neg hzero, if_neg hdomain]
    exact hasOutcome_of_not_refuses hfree (Binary64.pow_ne_nan hx hy hwhole) nofun

/-- An operator with finite operands has its outcome. -/
theorem hasOutcome_apply (hx : x.isFinite = true) (hy : y.isFinite = true) :
    operator.HasOutcome x y rightStart start (operator.apply x y rightStart start) := by
  by_cases h : operator.Refuses x y
  · exact hasOutcome_of_refuses hy h
  · exact hasOutcome_apply_of_not_refuses hx hy h

end Operator

/-! ## Values of expressions -/

/-- What is finite about an outcome: the value, and the operands that an error names. -/
def NamesFinite : Except EvaluationError Binary64 → Prop
  | .ok x => x.isFinite = true
  | .error (.domain x y _) => x.isFinite = true ∧ y.isFinite = true
  | .error _ => True

/-- A number that is required to be finite is, or the error names no operands. -/
theorem namesFinite_requireFinite (context : String) (p : Nat) (x : Binary64) :
    NamesFinite (requireFinite context p x) := by
  rw [requireFinite]
  split
  · next hx => exact hx
  · trivial

/-- Finite operands give an outcome in which everything is finite. -/
theorem Operator.HasOutcome.namesFinite {operator : Operator} {x y : Binary64}
    {rightStart start : Nat} {outcome : Except EvaluationError Binary64}
    (h : operator.HasOutcome x y rightStart start outcome) (hx : x.isFinite = true)
    (hy : y.isFinite = true) : NamesFinite outcome := by
  cases outcome with
  | ok z => exact ((h.ok_iff z).mp rfl).2.2
  | error err =>
    cases err with
    | domain a b p =>
      obtain ⟨-, -, -, rfl, rfl, -⟩ := (h.domain_iff a b p).mp rfl
      exact ⟨hx, hy⟩
    | _ => trivial

/-- Everything that the outcome of an expression names is finite. -/
theorem Expr.namesFinite_valueWithin (limit room : Nat) (e : Expr) :
    NamesFinite (e.valueWithin limit room) := by
  induction e generalizing room with
  | number x span =>
    cases room with
    | zero => trivial
    | succ room => exact namesFinite_requireFinite _ _ _
  | signed sign operand span ih =>
    cases room with
    | zero => trivial
    | succ room =>
      have hoperand := ih room
      rw [valueWithin]
      cases hx : operand.valueWithin limit room with
      | error err => rwa [hx] at hoperand
      | ok x =>
        rw [hx] at hoperand
        cases sign with
        | plus => exact hoperand
        | minus => exact (Binary64.isFinite_neg x).trans hoperand
  | binary operator left right span ihl ihr =>
    cases room with
    | zero => trivial
    | succ room =>
      have hleft := ihl room
      have hright := ihr room
      rw [valueWithin]
      cases hx : left.valueWithin limit room with
      | error err => rwa [hx] at hleft
      | ok x =>
        cases hy : right.valueWithin limit room with
        | error err => rwa [hy] at hright
        | ok y =>
          rw [hx] at hleft
          rw [hy] at hright
          exact (Operator.hasOutcome_apply hleft hright).namesFinite hleft hright

/-- **Only finite numbers come out, and operators refuse nothing too much and nothing too little.**
The value of an expression is finite, and so are the operands that an error names, also where the
expression has leaves that are not finite. The operands of a binary node that have values have
finite ones, and the node has the outcome of its operator: one of its errors exactly where the
operator refuses the operands for that reason, an overflow where the result is infinite, and else
the result, which is never undefined. -/
theorem finite_values_exact (limit : Nat) :
    (∀ e x, evaluate limit e = .ok x → x.isFinite = true) ∧
    (∀ e x y p, evaluate limit e = .error (.domain x y p) →
      x.isFinite = true ∧ y.isFinite = true) ∧
    ∀ (operator : Operator) (left right : Expr) (span : Span) (depth : Nat) (x y : Binary64),
      (Evaluation.ofExpr limit left (depth + 1)).1 = .ok x →
      (Evaluation.ofExpr limit right (depth + 1)).1 = .ok y →
      x.isFinite = true ∧ y.isFinite = true ∧
      operator.HasOutcome x y right.span.start span.start
        (Evaluation.ofExpr limit (.binary operator left right span) depth).1 := by
  have hfinite : ∀ (e : Expr) room, NamesFinite (e.valueWithin limit room) := fun e room =>
    e.namesFinite_valueWithin limit room
  refine ⟨fun e x hx => ?_, fun e x y p herr => ?_, ?_⟩
  · have h := hfinite e limit
    rwa [← evaluate_eq, hx] at h
  · have h := hfinite e limit
    rwa [← evaluate_eq, herr] at h
  · intro operator left right span depth x y hleft hright
    rw [Evaluation.ofExpr_eq] at hleft hright ⊢
    dsimp only at hleft hright ⊢
    have hx : x.isFinite = true := by
      have h := hfinite left (limit - (depth + 1))
      rwa [hleft] at h
    have hy : y.isFinite = true := by
      have h := hfinite right (limit - (depth + 1))
      rwa [hright] at h
    -- the left operand has a value, so there is room for the node
    have hroom : limit - depth = limit - (depth + 1) + 1 := by
      rcases Nat.lt_or_ge depth limit with hlt | hge
      · omega
      · rw [Nat.sub_eq_zero_of_le (by omega)] at hleft
        cases hleft
    rw [hroom, Expr.valueWithin, hleft]
    change x.isFinite = true ∧ y.isFinite = true ∧ operator.HasOutcome x y _ _
      (right.valueWithin limit _ >>= fun y => operator.apply x y right.span.start span.start)
    rw [hright]
    exact ⟨hx, hy, Operator.hasOutcome_apply hx hy⟩

end Calculator
