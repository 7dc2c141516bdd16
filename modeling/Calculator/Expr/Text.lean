import Calculator.Decimal.Layout
import Calculator.Expr.Basic

/-!
# The text of an expression

Every sign and every operator is written in parentheses with its operands, so the text shows the
tree without a rule of precedence.
-/

namespace Calculator.Expr

/-- The characters of an expression, followed by `rest`. -/
def charsBefore : Expr → List Char → List Char
  | number value _, rest => plainChars value ++ rest
  | signed sign operand _, rest => '(' :: sign.symbol :: charsBefore operand (')' :: rest)
  | binary operator left right _, rest =>
    '(' :: charsBefore left
      (' ' :: operator.symbol :: ' ' :: charsBefore right (')' :: rest))

/-- The characters of an expression. -/
def chars (e : Expr) : List Char :=
  e.charsBefore []

/-- An expression as text. -/
def text (e : Expr) : String :=
  String.ofList e.chars

end Calculator.Expr
