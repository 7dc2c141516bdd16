import Calculator.Answer
import Calculator.Binary64.Arithmetic

/-!
# The built-in cases

A few expressions with known values and a few without, and whether the answers are as expected.
-/

namespace Calculator

/-- How the answer to a case compares with what is expected. -/
inductive Verdict where
  | pass
  | fail (actual : Binary64)
  | error (message : String)
  | rejectedAsExpected (message : String)
  | unexpectedSuccess (value : Binary64)
deriving DecidableEq

/-- Whether a verdict is a good one. -/
def Verdict.passed : Verdict → Bool
  | pass => true
  | rejectedAsExpected _ => true
  | _ => false

/-- A case that was tried. Without an expected value the expression is expected to fail. -/
structure CaseReport where
  expression : String
  expected : Option Binary64
  verdict : Verdict
deriving DecidableEq

namespace SelfTest

/-- How far a value may lie from the expected one: 10⁻⁹. -/
def tolerance : Binary64 :=
  .ofDecimal false 1 (-9)

/-- The expressions with a value. -/
def validCases : List (String × Binary64) :=
  [("1+2*3", .ofNat 7),
   ("(1+2)*3", .ofNat 9),
   ("2^3^2", .ofNat 512),
   ("-3 + 5", .ofNat 2),
   ("3 + 4 * 2 / (1 - 5)^2", .ofDecimal false 35 (-1)),
   ("7 % 3", .ofNat 1),
   ("7 % 4 + 2", .ofNat 5),
   ("3.5 + 2", .ofDecimal false 55 (-1)),
   ("-(-2)", .ofNat 2)]

/-- The expressions without a value. -/
def invalidCases : List String :=
  ["1 +", "* 3", "3 + (4 *", "3 // 2", "abc"]

/-- Tries an expression with a known value. -/
def tryValid (expression : String) (expected : Binary64) : CaseReport :=
  let verdict := match answer .standard expression with
    | .ok actual =>
      if ((actual.sub expected).abs).lt tolerance then .pass else .fail actual
    | .error e => .error e.message
  ⟨expression, some expected, verdict⟩

/-- Tries an expression that has no value. -/
def tryInvalid (expression : String) : CaseReport :=
  let verdict := match answer .standard expression with
    | .ok value => .unexpectedSuccess value
    | .error e => .rejectedAsExpected e.message
  ⟨expression, none, verdict⟩

/-- All cases, tried in order. -/
def run : List CaseReport :=
  validCases.map (fun (expression, expected) => tryValid expression expected) ++
    invalidCases.map tryInvalid

/-- Whether all cases passed. -/
def allPassed (cases : List CaseReport) : Bool :=
  cases.all (·.verdict.passed)

/-- The number of cases that did not pass. -/
def failures (cases : List CaseReport) : Nat :=
  cases.countP (!·.verdict.passed)

/-- The line that tells of a case. -/
def caseLine (c : CaseReport) : String :=
  let expected := (c.expected.map resultText).getD ""
  match c.verdict with
  | .pass => "PASS: " ++ c.expression ++ " = " ++ expected ++ "\n"
  | .fail actual =>
    "FAIL: " ++ c.expression ++ " = " ++ resultText actual ++ ", expected " ++ expected ++ "\n"
  | .error message => "ERROR: " ++ c.expression ++ " -> " ++ message ++ "\n"
  | .rejectedAsExpected message =>
    "OK (error as expected): " ++ c.expression ++ " -> " ++ message ++ "\n"
  | .unexpectedSuccess value =>
    "FAIL (no error): " ++ c.expression ++ " = " ++ resultText value ++ "\n"

/-- The lines of all cases. A heading stands before the first one that is expected to fail. -/
def text (cases : List CaseReport) : String :=
  let (valid, invalid) := cases.span (·.expected.isSome)
  let heading := if invalid.isEmpty then "" else "\nInvalid tests (expect errors):\n"
  let total := cases.length
  "Running tests...\n" ++ String.join (valid.map caseLine) ++ heading ++
    String.join (invalid.map caseLine) ++ "\n" ++ Nat.repr (total - failures cases) ++ " of " ++
    Nat.repr total ++ " cases passed\n"

end SelfTest

end Calculator
