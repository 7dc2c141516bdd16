import Calculator.Decimal.Numeral
import Calculator.Span

/-!
# Tokens

The words of an expression: numbers, the six operators, the two parentheses and the end of the
input.
-/

namespace Calculator

/-- The kinds of tokens. -/
inductive TokenKind where
  | number
  | plus
  | minus
  | star
  | slash
  | percent
  | caret
  | openParen
  | closeParen
  | endOfInput
deriving DecidableEq, Repr

namespace TokenKind

/-- The kind of the token that a symbol makes, if it makes one. -/
def ofSymbol? : Char → Option TokenKind
  | '+' => some plus
  | '-' => some minus
  | '*' => some star
  | '/' => some slash
  | '%' => some percent
  | '^' => some caret
  | '(' => some openParen
  | ')' => some closeParen
  | _ => none

/-- The name of a kind: a symbol is its own name. -/
def text : TokenKind → String
  | number => "number"
  | plus => "+"
  | minus => "-"
  | star => "*"
  | slash => "/"
  | percent => "%"
  | caret => "^"
  | openParen => "("
  | closeParen => ")"
  | endOfInput => "end of input"

end TokenKind

/-- What a number token denotes. A whole number below 2⁶⁴ that is written without a point is kept
exactly. -/
inductive Literal where
  | integer (n : Nat)
  | decimal (x : Binary64)
deriving DecidableEq

namespace Literal

/-- The literal of a numeral. -/
def ofNumeral (n : Numeral) : Literal :=
  match n.fraction with
  | none =>
    if digitsValue n.whole < 2 ^ 64 then integer (digitsValue n.whole) else decimal n.value
  | some _ => decimal n.value

/-- The number that a literal stands for in an expression. -/
def value : Literal → Binary64
  | integer n => .ofNat n
  | decimal x => x

end Literal

/-- A word of an expression, with the characters it was read from. -/
structure Token where
  kind : TokenKind
  lexeme : String
  value : Option Literal
  span : Span
deriving DecidableEq

namespace Token

/-- The token that ends a text of the given length. -/
def endOfInput (position : Nat) : Token :=
  ⟨.endOfInput, "", none, .point position⟩

/-- Where a token starts. -/
def position (t : Token) : Nat :=
  t.span.start

end Token

end Calculator
