import Calculator.Answer

/-!
# Outcomes

The record that an answer makes for a reader: the value with the text that shows it, or a report of
the error.
-/

namespace Calculator

/-- What a reader is told of an error. -/
structure Report where
  stage : Stage
  code : ErrorCode
  message : String
  position : Nat
deriving DecidableEq, Repr

/-- The report of an error. -/
def Report.ofError (e : Error) : Report :=
  ⟨e.stage, e.code, e.message, e.position⟩

/-- An answer as a record. -/
structure Outcome where
  success : Bool
  value : Option Binary64
  display : Option String
  error : Option Report
deriving DecidableEq

/-- The record of an answer: a value and its text, or a report. -/
def Outcome.ofAnswer : Except Error Binary64 → Outcome
  | .ok x => ⟨true, some x, some (resultText x), none⟩
  | .error e => ⟨false, none, none, some (.ofError e)⟩

/-- The outcome of a text within the limits that hold where none are given. -/
def Outcome.ofText (text : String) : Outcome :=
  .ofAnswer (answer .standard text)

end Calculator
