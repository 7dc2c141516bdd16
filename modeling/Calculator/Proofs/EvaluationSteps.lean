import Calculator.Evaluation

/-!
# The value with room for so many nodes

An evaluation counts the nodes that are open and leaves the count as it found it. So what it comes
to depends on the count only through the room that is left below the limit, and it can be described
without a count: as the value of an expression where so many nodes may lie on a path.
-/

namespace Calculator

/-- A step after another one succeeds only where the other one does. -/
theorem exists_of_bind_eq_ok {α β : Type} {x : Except EvaluationError α}
    {f : α → Except EvaluationError β} {b : β} (h : x >>= f = .ok b) :
    ∃ a, x = .ok a ∧ f a = .ok b := by
  cases x with
  | error err => cases h
  | ok a => exact ⟨a, rfl, h⟩

/-- A step after another one fails where the other one does, or behind what that one comes to. -/
theorem cases_of_bind_eq_error {α β : Type} {x : Except EvaluationError α}
    {f : α → Except EvaluationError β} {err : EvaluationError} (h : x >>= f = .error err) :
    x = .error err ∨ ∃ a, x = .ok a ∧ f a = .error err := by
  cases x with
  | error err' =>
    cases h
    exact .inl rfl
  | ok a => exact .inr ⟨a, rfl, h⟩

namespace Expr

/-- The value of an expression without a limit: the left operand, the right operand, the operator,
and the first error ends it. -/
def value : Expr → Except EvaluationError Binary64
  | .number x span => requireFinite "literal" span.start x
  | .signed sign operand _ => do
    let x ← operand.value
    return sign.apply x
  | .binary operator left right span => do
    let x ← left.value
    let y ← right.value
    operator.apply x y right.span.start span.start

/-- The value of an expression where `room` nodes may lie on a path from its root. The limit is the
one that the error names. -/
def valueWithin (limit : Nat) : Nat → Expr → Except EvaluationError Binary64
  | 0, e => .error (.depthExceeded limit e.span.start)
  | _ + 1, .number x span => requireFinite "literal" span.start x
  | room + 1, .signed sign operand _ => do
    let x ← valueWithin limit room operand
    return sign.apply x
  | room + 1, .binary operator left right span => do
    let x ← valueWithin limit room left
    let y ← valueWithin limit room right
    operator.apply x y right.span.start span.start

end Expr

namespace Evaluation

/-- An evaluation after another one starts with the count of that one. -/
theorem bind_apply {α β : Type} (p : Evaluation α) (f : α → Evaluation β) (depth : Nat) :
    (p >>= f) depth = match p depth with
      | (.ok a, d) => f a d
      | (.error e, d) => (.error e, d) := by
  have hbind : (p >>= f) depth = ExceptT.bindCont f (p depth).1 (p depth).2 := rfl
  rw [hbind]
  rcases p depth with ⟨e | a, d⟩ <;> rfl

/-- A node comes to what `result` says of the room that is left: an error where there is none, and
else what is inside of the node. The count goes back to where it was. -/
theorem within_eq {α : Type} {limit depth start : Nat} {p : Evaluation α}
    (result : Nat → Except EvaluationError α)
    (hzero : result 0 = .error (.depthExceeded limit start))
    (hsucc : p (depth + 1) = (result (limit - (depth + 1) + 1), depth + 1)) :
    within limit start p depth = (result (limit - depth), depth) := by
  rw [within]
  by_cases h : depth < limit
  · have hroom : limit - (depth + 1) + 1 = limit - depth := by omega
    rw [if_pos h, hsucc, hroom]
    rfl
  · rw [if_neg h, Nat.sub_eq_zero_of_le (Nat.not_lt.mp h), hzero]

/-- An evaluation comes to the value with the room that the count leaves, and the count is the same
before and after, whether the evaluation succeeds or fails. -/
theorem ofExpr_eq (limit : Nat) (e : Expr) (depth : Nat) :
    ofExpr limit e depth = (e.valueWithin limit (limit - depth), depth) := by
  induction e generalizing depth with
  | number x span => exact within_eq (Expr.valueWithin limit · (.number x span)) rfl rfl
  | signed sign operand span ih =>
    refine within_eq (Expr.valueWithin limit · (.signed sign operand span)) rfl ?_
    rw [bind_apply, ih, Expr.valueWithin]
    cases operand.valueWithin limit (limit - (depth + 1)) <;> rfl
  | binary operator left right span ihl ihr =>
    refine within_eq (Expr.valueWithin limit · (.binary operator left right span)) rfl ?_
    rw [bind_apply, ihl, Expr.valueWithin]
    cases left.valueWithin limit (limit - (depth + 1)) with
    | error err => rfl
    | ok x =>
      simp only [bind_apply, ihr]
      cases right.valueWithin limit (limit - (depth + 1)) <;> rfl

end Evaluation

/-- An expression is evaluated to its value with all the room that the limit leaves. -/
theorem evaluate_eq (limit : Nat) (e : Expr) : evaluate limit e = e.valueWithin limit limit := by
  rw [evaluate, Evaluator.eval, Evaluator.new, Evaluation.ofExpr_eq, Nat.sub_zero]

end Calculator
