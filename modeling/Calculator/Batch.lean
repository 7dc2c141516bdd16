import Calculator.Json.Encode

/-!
# Answering texts line by line

How the answer to a text is printed, and the answers to several texts, each on a line of its own.
-/

namespace Calculator

/-- How expressions are answered: with which limits, and whether as JSON. -/
structure Options where
  limits : Limits
  json : Bool
deriving DecidableEq, Repr

/-- An answer as it is printed. -/
def rendered (json : Bool) (result : Except Error Binary64) : String :=
  if json then (Outcome.ofAnswer result).toJson
  else match result with
    | .ok x => "= " ++ resultText x
    | .error e => "Error: " ++ e.message

/-- The line that an answer makes. -/
def answerLine (json : Bool) (result : Except Error Binary64) : String :=
  rendered json result ++ "\n"

/-- What is printed for texts, and whether every one has a value. -/
def runBatch (options : Options) (texts : List String) : Bool × String :=
  let results := texts.map (answer options.limits)
  (results.all (·.isOk), String.join (results.map (answerLine options.json)))

end Calculator
