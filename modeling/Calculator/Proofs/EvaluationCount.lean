import Calculator.Proofs.EvaluationSteps

/-!
# The count of an evaluation

An evaluation counts the nodes that are open, up before the inside of a node and down after it. Here
it is checked that the count can go down: where it is zero already, a checked evaluation has no
outcome at all. A checked evaluation turns out to have the outcome of the evaluation, from every
count and for every expression, and the count is left as it was found. So an evaluator that is used
again and again is as good as a new one each time.
-/

namespace Calculator

/-- A step of an evaluation that has no outcome where its count would go below zero. -/
abbrev CheckedEvaluation (α : Type) : Type :=
  ExceptT EvaluationError (StateT Nat Option) α

namespace CheckedEvaluation

/-- A result that takes no step deeper. -/
def ofResult {α : Type} (result : Except EvaluationError α) : CheckedEvaluation α :=
  fun depth => some (result, depth)

/-- One node deeper, unless `limit` nodes are open already; back up again however the step ends, if
there is a node to come up from. -/
def within {α : Type} (limit start : Nat) (p : CheckedEvaluation α) : CheckedEvaluation α :=
  fun depth =>
    if depth < limit then
      (p (depth + 1)).bind fun outcome =>
        if outcome.2 = 0 then none else some (outcome.1, outcome.2 - 1)
    else some (.error (.depthExceeded limit start), depth)

/-- The value of an expression. -/
def ofExpr (limit : Nat) : Expr → CheckedEvaluation Binary64
  | .number x span => within limit span.start
    (ofResult (requireFinite "literal" span.start x))
  | .signed sign operand span => within limit span.start do
    let x ← ofExpr limit operand
    return sign.apply x
  | .binary operator left right span => within limit span.start do
    let x ← ofExpr limit left
    let y ← ofExpr limit right
    ofResult (operator.apply x y right.span.start span.start)

/-- A checked evaluation after another one starts with the count of that one, and it has no outcome
where that one has none. -/
theorem bind_apply {α β : Type} (p : CheckedEvaluation α) (f : α → CheckedEvaluation β)
    (depth : Nat) :
    (p >>= f) depth = (p depth).bind fun outcome => ExceptT.bindCont f outcome.1 outcome.2 :=
  rfl

end CheckedEvaluation

/-- A step leaves the count as it found it, whether it succeeds or fails, and the checked step has
the same outcome. -/
structure LeavesCount {α : Type} (p : Evaluation α) (checked : CheckedEvaluation α) : Prop where
  depth_eq (depth : Nat) : (p depth).2 = depth
  checked_eq (depth : Nat) : checked depth = some (p depth)

namespace LeavesCount

variable {α β : Type}

/-- A result leaves the count alone. -/
theorem ofResult (result : Except EvaluationError α) :
    LeavesCount (.ofResult result) (.ofResult result) :=
  ⟨fun _ => rfl, fun _ => rfl⟩

/-- Two steps leave the count as they found it if each of them does. Where the first one fails, the
second is not taken. -/
theorem bind {p : Evaluation α} {checked : CheckedEvaluation α} (hp : LeavesCount p checked)
    {f : α → Evaluation β} {g : α → CheckedEvaluation β} (hf : ∀ a, LeavesCount (f a) (g a)) :
    LeavesCount (p >>= f) (checked >>= g) := by
  constructor
  · intro depth
    have hdepth := hp.depth_eq depth
    rw [Evaluation.bind_apply]
    rcases hrun : p depth with ⟨err | a, d⟩
    · rwa [hrun] at hdepth
    · rw [hrun] at hdepth
      exact ((hf a).depth_eq d).trans hdepth
  · intro depth
    rw [CheckedEvaluation.bind_apply, Evaluation.bind_apply, hp.checked_eq, Option.bind_some]
    rcases p depth with ⟨err | a, d⟩
    · rfl
    · exact (hf a).checked_eq d

/-- A node leaves the count as it found it if the inside of the node does: the count comes down from
one more than it was. -/
theorem within {p : Evaluation α} {checked : CheckedEvaluation α} (hp : LeavesCount p checked)
    (limit start : Nat) :
    LeavesCount (Evaluation.within limit start p)
      (CheckedEvaluation.within limit start checked) := by
  constructor
  · intro depth
    rw [Evaluation.within]
    split
    · exact congrArg (· - 1) (hp.depth_eq (depth + 1))
    · rfl
  · intro depth
    have hopen : (p (depth + 1)).2 ≠ 0 := by
      rw [hp.depth_eq]
      exact Nat.succ_ne_zero depth
    rw [CheckedEvaluation.within, Evaluation.within]
    split
    · rw [hp.checked_eq, Option.bind_some, if_neg hopen]
      rfl
    · rfl

/-- The evaluation of an expression leaves the count as it found it. -/
theorem ofExpr (limit : Nat) (e : Expr) :
    LeavesCount (Evaluation.ofExpr limit e) (CheckedEvaluation.ofExpr limit e) := by
  induction e with
  | number x span => exact (ofResult _).within limit span.start
  | signed sign operand span ih =>
    exact (ih.bind fun x => ofResult (.ok (sign.apply x))).within limit span.start
  | binary operator left right span ihl ihr =>
    exact (ihl.bind fun x => ihr.bind fun y => ofResult _).within limit span.start

end LeavesCount

namespace Evaluator

/-- What an evaluator comes to that works out one expression after the other, and the evaluator
after each of them. -/
def evalAll (v : Evaluator) : List Expr → List (Except EvaluationError Binary64 × Evaluator)
  | [] => []
  | e :: es => v.eval e :: (v.eval e).2.evalAll es

/-- An evaluator works out an expression as a new one does, and is a new one afterwards. -/
theorem eval_eq (limit depth : Nat) (e : Expr) :
    (Evaluator.mk limit depth).eval e = (evaluate limit e, .new limit) := by
  have hdepth := (LeavesCount.ofExpr limit e).depth_eq 0
  exact Prod.ext rfl (congrArg (Evaluator.mk limit) hdepth)

end Evaluator

/-- **An evaluation leaves no trace.** From every count, whether it succeeds or fails, the
evaluation of an expression ends with the count with which it began, and at no node on the way does
the count go below zero. So an evaluator with any count works out each of a list of expressions, no
matter which of them fail, as a new one with the same limit does, and its count is zero after each
of them. -/
theorem evaluation_leaves_no_trace (limit : Nat) :
    (∀ (e : Expr) (depth : Nat),
      (Evaluation.ofExpr limit e depth).2 = depth ∧
      CheckedEvaluation.ofExpr limit e depth = some (Evaluation.ofExpr limit e depth)) ∧
    (∀ (es : List Expr) (depth : Nat), (Evaluator.mk limit depth).evalAll es =
      es.map fun e => (evaluate limit e, Evaluator.new limit)) := by
  constructor
  · intro e depth
    have he := LeavesCount.ofExpr limit e
    exact ⟨he.depth_eq depth, he.checked_eq depth⟩
  · intro es
    induction es with
    | nil => exact fun _ => rfl
    | cons e es ih =>
      intro depth
      rw [Evaluator.evalAll, Evaluator.eval_eq, List.map_cons]
      exact congrArg _ (ih 0)

end Calculator
