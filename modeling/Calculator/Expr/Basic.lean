import Calculator.Binary64.Basic
import Calculator.Span

/-!
# Expression trees

Numbers, signs and operators, each with the span of the text that it stands for. Parentheses leave
no node behind, so a span covers the operands but not the parentheses around them.
-/

namespace Calculator

/-- The signs before an operand. -/
inductive Sign where
  | plus
  | minus
deriving DecidableEq, Repr

/-- The symbol of a sign. -/
def Sign.symbol : Sign → Char
  | plus => '+'
  | minus => '-'

/-- The operators between two operands. -/
inductive Operator where
  | add
  | sub
  | mul
  | div
  | mod
  | pow
deriving DecidableEq, Repr

/-- The symbol of an operator. -/
def Operator.symbol : Operator → Char
  | add => '+'
  | sub => '-'
  | mul => '*'
  | div => '/'
  | mod => '%'
  | pow => '^'

/-- An expression. -/
inductive Expr where
  | number (value : Binary64) (span : Span)
  | signed (sign : Sign) (operand : Expr) (span : Span)
  | binary (operator : Operator) (left right : Expr) (span : Span)
deriving DecidableEq

namespace Expr

/-- The span of the text that an expression stands for. -/
def span : Expr → Span
  | number _ s => s
  | signed _ _ s => s
  | binary _ _ _ s => s

/-- An operand with a sign before it. The span runs from the sign to the end of the operand. -/
def withSign (sign : Sign) (signSpan : Span) (operand : Expr) : Expr :=
  .signed sign operand (signSpan.merge operand.span)

/-- Two operands with an operator between them. The span runs from the one to the other. -/
def combine (operator : Operator) (left right : Expr) : Expr :=
  .binary operator left right (left.span.merge right.span)

/-- Equality of expressions: the same spans, signs and operators, and leaves that are equal as
numbers. An expression with a leaf that is not a number does not equal itself. -/
def eqv : Expr → Expr → Bool
  | number x s, number y t => x.eqv y && s == t
  | signed a x s, signed b y t => a == b && eqv x y && s == t
  | binary a x y s, binary b z w t => a == b && eqv x z && eqv y w && s == t
  | _, _ => false

end Expr

end Calculator
