import Calculator.Error
import Calculator.Token.Basic

/-!
# The state of a parse

A parse reads tokens from a state and counts how many levels are open. It always says where it
stopped, also when it fails. A parse never passes the end token, so what follows the first end
token of a list does not matter.
-/

namespace Calculator

/-- What the structure of an expression can lack. -/
inductive Fault where
  /-- An operand is due, and the token starts none. -/
  | operandExpected
  /-- A number token does not say which number it is. -/
  | valueMissing
  /-- The operand in a parenthesis is complete, and the token neither goes on nor closes it. -/
  | unclosedParen
  /-- The expression is complete, and the token does not go on. -/
  | trailingInput
  /-- One more level would be more than the limit. -/
  | tooDeep (limit : Nat)
deriving DecidableEq, Repr

namespace Fault

/-- The code of a fault. -/
def code : Fault → ErrorCode
  | operandExpected => .unexpectedToken
  | valueMissing => .unexpectedToken
  | unclosedParen => .unclosedParen
  | trailingInput => .trailingInput
  | tooDeep _ => .nestingTooDeep

/-- The wording of a fault. -/
def reason : Fault → String
  | operandExpected => "expected number or '('"
  | valueMissing => "number token without a value"
  | unclosedParen => "expected ')' after expression"
  | trailingInput => "unexpected token, expected end of expression"
  | tooDeep limit => "maximum nesting depth of " ++ Nat.repr limit ++ " exceeded"

/-- The error that a fault makes at a token. -/
def errorAt (f : Fault) (t : Token) : StructuralError :=
  ⟨f.code, f.reason, t.lexeme, t.position⟩

end Fault

/-- Where a parse stands: the tokens still to be read, the token that ends them, and the number of
open levels. -/
structure ParseState where
  rest : List Token
  stop : Token
  depth : Nat
deriving DecidableEq

namespace ParseState

/-- The start of a list of tokens. It goes to the first end token, or to its end if it has none. -/
def ofTokens (tokens : List Token) : ParseState :=
  let isEnd := fun t : Token => t.kind == .endOfInput
  let fallback := Token.endOfInput ((tokens.getLast?.map (·.span.stop)).getD 0)
  ⟨tokens.takeWhile (!isEnd ·), (tokens.find? isEnd).getD fallback, 0⟩

/-- The token at which a parse stands. -/
def current (s : ParseState) : Token :=
  s.rest.headD s.stop

/-- The state behind the current token. The end token stays. -/
def advance (s : ParseState) : ParseState :=
  { s with rest := s.rest.tail }

end ParseState

/-- A step of a parse: from a state to a result or an error, and to the state it stopped in. -/
abbrev Parse (α : Type) : Type :=
  ExceptT StructuralError (StateM ParseState) α

namespace Parse

/-- The current token. -/
def peek : Parse Token :=
  fun s => (.ok s.current, s)

/-- Takes the current token. -/
def take : Parse Token :=
  fun s => (.ok s.current, s.advance)

/-- Fails at the current token. -/
def fail (f : Fault) : Parse α :=
  fun s => (.error (f.errorAt s.current), s)

/-- Fails at a token that was taken already. -/
def failAt (f : Fault) (t : Token) : Parse α :=
  throw (f.errorAt t)

/-- One level deeper, unless that is more than `limit`; back up again however the step ends. -/
@[inline] def nested (limit : Nat) (p : Parse α) : Parse α := fun s =>
  if s.depth < limit then
    let (result, t) := p { s with depth := s.depth + 1 }
    (result, { t with depth := t.depth - 1 })
  else (.error ((Fault.tooDeep limit).errorAt s.current), s)

end Parse

end Calculator
