import Calculator.Binary64.Power
import Calculator.Error
import Calculator.Expr.Basic

/-!
# The value of an expression

An expression is worked out from the left: the left operand, the right operand, the operator, and
the first error ends it. Values are finite throughout. The remainder is that of whole numbers, has
the sign of the divisor, and takes the whole numbers nearest to its operands. The depth of the node
being worked out is counted, and no node may lie deeper than a limit.
-/

namespace Calculator

/-- A finite number, or the error that something is too large. -/
def requireFinite (context : String) (position : Nat) (x : Binary64) :
    Except EvaluationError Binary64 :=
  if x.isFinite then .ok x else .error (.overflow context position)

/-- A number with a sign before it. -/
def Sign.apply : Sign → Binary64 → Binary64
  | plus, x => x
  | minus, x => x.neg

/-- The remainder of `a` by `b` with the sign of `b`. A remainder of zero is positive. -/
def flooredRemainder (a b : Binary64) : Binary64 :=
  let r := a.rem b
  let r := if !r.isZero && r.isBelowZero != b.isBelowZero then r.add b else r
  if r.isZero then .zero else r

/-- The remainder of the whole numbers nearest to `x` and `y`. -/
def modulo (x y : Binary64) (rightStart start : Nat) : Except EvaluationError Binary64 :=
  let b := y.roundHalfAway
  if b.isZero then .error (.moduloByZero rightStart)
  else requireFinite "'%'" start (flooredRemainder x.roundHalfAway b)

/-- The power of two numbers, where it is a real number. -/
def power (x y : Binary64) (start : Nat) : Except EvaluationError Binary64 :=
  if x.isZero && y.isBelowZero then .error (.zeroToNegativePower start)
  else if x.isBelowZero && !y.isIntegral then .error (.domain x y start)
  else requireFinite "'^'" start (x.pow y)

/-- The quotient of two numbers, where the divisor is not zero. -/
def quotient (x y : Binary64) (rightStart start : Nat) : Except EvaluationError Binary64 :=
  if y.isZero then .error (.divisionByZero rightStart)
  else requireFinite "'/'" start (x.div y)

/-- An operator applied to two numbers. Errors lie at the right operand where its value is at
fault, and else at the start of the whole. -/
def Operator.apply (operator : Operator) (x y : Binary64) (rightStart start : Nat) :
    Except EvaluationError Binary64 :=
  match operator with
  | add => requireFinite "'+'" start (x.add y)
  | sub => requireFinite "'-'" start (x.sub y)
  | mul => requireFinite "'*'" start (x.mul y)
  | div => quotient x y rightStart start
  | mod => modulo x y rightStart start
  | pow => power x y start

/-- A step of an evaluation. It counts the depth, and says it also when it fails. -/
abbrev Evaluation (α : Type) : Type :=
  ExceptT EvaluationError (StateM Nat) α

namespace Evaluation

/-- A result that takes no step deeper. -/
def ofResult (result : Except EvaluationError α) : Evaluation α :=
  fun depth => (result, depth)

/-- One node deeper, unless `limit` nodes are open already; back up again however the step ends. -/
@[inline] def within (limit start : Nat) (p : Evaluation α) : Evaluation α := fun depth =>
  if depth < limit then
    let (result, d) := p (depth + 1)
    (result, d - 1)
  else (.error (.depthExceeded limit start), depth)

/-- The value of an expression. -/
def ofExpr (limit : Nat) : Expr → Evaluation Binary64
  | .number x span => within limit span.start
    (ofResult (requireFinite "literal" span.start x))
  | .signed sign operand span => within limit span.start do
    let x ← ofExpr limit operand
    return sign.apply x
  | .binary operator left right span => within limit span.start do
    let x ← ofExpr limit left
    let y ← ofExpr limit right
    ofResult (operator.apply x y right.span.start span.start)

end Evaluation

/-- An evaluator that works out one expression after the other with the same limit. -/
structure Evaluator where
  limit : Nat
  depth : Nat
deriving DecidableEq, Repr

namespace Evaluator

/-- An evaluator that has not worked out anything. -/
def new (limit : Nat) : Evaluator :=
  ⟨limit, 0⟩

/-- The value of an expression, and the evaluator afterwards. The count starts anew. -/
def eval (v : Evaluator) (e : Expr) : Except EvaluationError Binary64 × Evaluator :=
  let (result, depth) := Evaluation.ofExpr v.limit e 0
  (result, { v with depth })

end Evaluator

/-- The value of an expression, with at most `limit` nodes on a path from the root. -/
def evaluate (limit : Nat) (e : Expr) : Except EvaluationError Binary64 :=
  ((Evaluator.new limit).eval e).1

end Calculator
