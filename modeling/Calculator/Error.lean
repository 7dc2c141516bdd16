import Calculator.Decimal.Layout
import Calculator.Span

/-!
# Errors

What can be wrong with an expression. Each of the three stages has errors of its own, and every
error has a code, a position in the text and a message. The code tells the stage.
-/

namespace Calculator

/-- The stages in which an expression is worked out: its words, its structure, its value. -/
inductive Stage where
  | lexical
  | structural
  | evaluation
deriving DecidableEq, Repr

/-- The name of a stage. -/
def Stage.text : Stage → String
  | lexical => "lexical"
  | structural => "syntax"
  | evaluation => "evaluation"

/-- The number of an error. -/
structure ErrorCode where
  number : UInt16
deriving DecidableEq, Repr

namespace ErrorCode

/-- A character that starts no token. -/
def invalidCharacter : ErrorCode := ⟨100⟩

/-- A token that starts no operand, where an operand is due. -/
def unexpectedToken : ErrorCode := ⟨200⟩

/-- A parenthesis that is not closed. -/
def unclosedParen : ErrorCode := ⟨201⟩

/-- A token after the end of the expression. -/
def trailingInput : ErrorCode := ⟨202⟩

/-- Too many open parentheses, signs and exponents. -/
def nestingTooDeep : ErrorCode := ⟨203⟩

/-- A quotient by zero. -/
def divisionByZero : ErrorCode := ⟨300⟩

/-- A remainder by zero. -/
def moduloByZero : ErrorCode := ⟨301⟩

/-- A power that is not a real number. -/
def domainError : ErrorCode := ⟨302⟩

/-- A number too large for a finite result. -/
def nonFiniteResult : ErrorCode := ⟨303⟩

/-- Too many levels of operators. -/
def depthExceeded : ErrorCode := ⟨304⟩

/-- The stage that a code belongs to. -/
def stage (c : ErrorCode) : Stage :=
  let n := c.number.toNat
  if 100 ≤ n && n ≤ 199 then .lexical
  else if 200 ≤ n && n ≤ 299 then .structural
  else .evaluation

/-- A code as text. -/
def text (c : ErrorCode) : String :=
  "E" ++ Nat.repr c.number.toNat

end ErrorCode

/-! ## The errors of each stage -/

/-- A character that starts no token. -/
structure LexicalError where
  character : Char
  position : Nat
deriving DecidableEq, Repr

/-- The message of an error in the words of an expression. -/
def LexicalError.message (e : LexicalError) : String :=
  "unexpected character '" ++ e.character.toString ++ "' at position " ++ Nat.repr e.position

/-- A token where the structure of an expression admits none like it. What was found is empty at
the end of the input. -/
structure StructuralError where
  code : ErrorCode
  reason : String
  found : String
  position : Nat
deriving DecidableEq, Repr

/-- The message of an error in the structure of an expression. -/
def StructuralError.message (e : StructuralError) : String :=
  e.reason ++ " at position " ++ Nat.repr e.position ++ ", found " ++
    if e.found.isEmpty then "end of input" else "'" ++ e.found ++ "'"

/-- An expression without a value. -/
inductive EvaluationError where
  | divisionByZero (position : Nat)
  | moduloByZero (position : Nat)
  | domain (base exponent : Binary64) (position : Nat)
  | zeroToNegativePower (position : Nat)
  | overflow (context : String) (position : Nat)
  | depthExceeded (limit position : Nat)
deriving DecidableEq

namespace EvaluationError

/-- The code of an error in the value of an expression. -/
def code : EvaluationError → ErrorCode
  | divisionByZero .. => .divisionByZero
  | moduloByZero .. => .moduloByZero
  | domain .. => .domainError
  | zeroToNegativePower .. => .domainError
  | overflow .. => .nonFiniteResult
  | depthExceeded .. => .depthExceeded

/-- Where an error in the value of an expression lies. -/
def position : EvaluationError → Nat
  | divisionByZero p => p
  | moduloByZero p => p
  | domain _ _ p => p
  | zeroToNegativePower p => p
  | overflow _ p => p
  | depthExceeded _ p => p

/-- The message of an error in the value of an expression. -/
def message : EvaluationError → String
  | divisionByZero _ => "division by zero"
  | moduloByZero _ => "modulo by zero"
  | domain base exponent _ =>
    "negative base " ++ plainText base ++ " raised to non-integer power " ++
      plainText exponent ++ " has no real result"
  | zeroToNegativePower _ => "zero raised to a negative power"
  | overflow context _ => context ++ " produced a non-finite result"
  | depthExceeded limit _ => "maximum evaluation depth of " ++ Nat.repr limit ++ " exceeded"

end EvaluationError

/-! ## Errors of any stage -/

/-- An error of any stage. -/
inductive Error where
  | lexical (e : LexicalError)
  | structural (e : StructuralError)
  | evaluation (e : EvaluationError)
deriving DecidableEq

namespace Error

/-- The code of an error. -/
def code : Error → ErrorCode
  | lexical _ => .invalidCharacter
  | structural e => e.code
  | evaluation e => e.code

/-- The stage of an error, as its code tells. -/
def stage (e : Error) : Stage :=
  e.code.stage

/-- Where an error lies in the text. -/
def position : Error → Nat
  | lexical e => e.position
  | structural e => e.position
  | evaluation e => e.position

/-- The message of an error. -/
def message : Error → String
  | lexical e => e.message
  | structural e => e.message
  | evaluation e => e.message

end Error

end Calculator
