import Calculator.Expr.Basic
import Calculator.Parse.State

/-!
# Reading an expression from tokens

A sum is a chain of products, a product a chain of powers, and both group from the left. A power is
an operand that may have an exponent, which is a power again, so powers group from the right. An
operand is a number or a sum in parentheses, with any number of signs before it, and so `-2 ^ 2` is
the square of `-2`. Every sum, every exponent and every sign opens a level while it is read.

The recursion is bounded by `fuel`, which is enough when it exceeds the number of tokens left.
-/

namespace Calculator

/-- The sign that a token makes before an operand. -/
def Sign.ofKind? : TokenKind → Option Sign
  | .plus => some plus
  | .minus => some minus
  | _ => none

namespace Operator

/-- The operators that make a sum. -/
def ofSumKind? : TokenKind → Option Operator
  | .plus => some add
  | .minus => some sub
  | _ => none

/-- The operators that make a product. -/
def ofProductKind? : TokenKind → Option Operator
  | .star => some mul
  | .slash => some div
  | .percent => some mod
  | _ => none

end Operator

namespace Parse

/-- Goes on with a chain that groups from the left, as long as an operator follows. -/
def chainFrom (operator? : TokenKind → Option Operator) (operand : Parse Expr) :
    Nat → Expr → ParseState → Except StructuralError Expr × ParseState
  | 0, left, s => (.ok left, s)
  | fuel + 1, left, s =>
    match operator? s.current.kind with
    | none => (.ok left, s)
    | some operator =>
      match operand s.advance with
      | (.error e, t) => (.error e, t)
      | (.ok right, t) => chainFrom operator? operand fuel (.combine operator left right) t

/-- Operands with operators between them, grouped from the left. -/
def chain (operator? : TokenKind → Option Operator) (operand : Parse Expr) (fuel : Nat) :
    Parse Expr := do
  let left ← operand
  chainFrom operator? operand fuel left

/-- A number, or what `inner` reads in parentheses. -/
def primary (inner : Parse Expr) : Parse Expr := do
  let token ← peek
  match token.kind with
  | .number =>
    let token ← take
    match token.value with
    | some literal => return .number literal.value token.span
    | none => failAt .valueMissing token
  | .openParen =>
    let _ ← take
    let e ← inner
    if (← peek).kind = .closeParen then
      let _ ← take
      return e
    else fail .unclosedParen
  | _ => fail .operandExpected

/-- An operand with its signs. -/
def signed (limit : Nat) (inner : Parse Expr) : Nat → Parse Expr
  | 0 => fail .operandExpected
  | fuel + 1 => do
    let token ← peek
    match Sign.ofKind? token.kind with
    | some sign =>
      let _ ← take
      let operand ← nested limit (signed limit inner fuel)
      return .withSign sign token.span operand
    | none => primary inner

/-- An operand with its exponent, if it has one. -/
def power (limit : Nat) (inner : Parse Expr) : Nat → Parse Expr
  | 0 => fail .operandExpected
  | fuel + 1 => do
    let base ← signed limit inner (fuel + 1)
    if (← peek).kind = .caret then
      let _ ← take
      let exponent ← nested limit (power limit inner fuel)
      return .combine .pow base exponent
    else return base

/-- A chain of powers. -/
def product (limit : Nat) (inner : Parse Expr) (fuel : Nat) : Parse Expr :=
  chain Operator.ofProductKind? (power limit inner fuel) fuel

/-- A chain of products. -/
def sum (limit : Nat) (inner : Parse Expr) (fuel : Nat) : Parse Expr :=
  chain Operator.ofSumKind? (product limit inner fuel) fuel

/-- A sum on a level of its own. -/
def expression (limit : Nat) : Nat → Parse Expr
  | 0 => fail .operandExpected
  | fuel + 1 => nested limit (sum limit (expression limit fuel) (fuel + 1))

/-- An expression and nothing after it. -/
def whole (limit fuel : Nat) : Parse Expr := do
  let e ← expression limit fuel
  if (← peek).kind = .endOfInput then return e else fail .trailingInput

end Parse

/-- The expression that a list of tokens makes, with at most `limit` levels open at a time. Of the
list only the tokens up to the first end token count. -/
def parse (limit : Nat) (tokens : List Token) : Except StructuralError Expr :=
  let s := ParseState.ofTokens tokens
  (Parse.whole limit (s.rest.length + 1) s).1

end Calculator
