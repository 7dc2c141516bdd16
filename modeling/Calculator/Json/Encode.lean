import Calculator.Outcome

/-!
# Records as JSON

The records that are handed to other programs, written without spaces and with their fields in
order. A field that is absent is left out.
-/

namespace Calculator

/-- The digit of a number below sixteen. -/
def hexDigit (n : Nat) : Char :=
  Nat.digitChar n

/-- A character inside a text. Quotation marks, backslashes and control characters are escaped. -/
def escapedChars (c : Char) : List Char :=
  if c == '"' then ['\\', '"']
  else if c == '\\' then ['\\', '\\']
  else if c == '\x08' then ['\\', 'b']
  else if c == '\t' then ['\\', 't']
  else if c == '\n' then ['\\', 'n']
  else if c == '\x0c' then ['\\', 'f']
  else if c == '\r' then ['\\', 'r']
  else if c.toNat < 0x20 then
    ['\\', 'u', '0', '0', hexDigit (c.toNat / 16), hexDigit (c.toNat % 16)]
  else [c]

/-- A text between quotation marks. -/
def quoted (s : String) : String :=
  String.ofList ('"' :: s.toList.flatMap escapedChars ++ ['"'])

/-- A number as data. One that is not finite is null. -/
def numberJson : Binary64 → String
  | .finite negative m => String.ofList (signText negative ++ NumberFormat.data.magnitudeText m)
  | _ => "null"

/-- An object with the given names and written values. -/
def objectJson (fields : List (String × String)) : String :=
  let members := fields.map fun (name, value) => quoted name ++ ":" ++ value
  "\x7b" ++ String.intercalate "," members ++ "\x7d"

/-- A field that is left out where it is absent. -/
def optionalField (name : String) (value : Option String) : List (String × String) :=
  match value with
  | some v => [(name, v)]
  | none => []

/-- A span as JSON. -/
def Span.toJson (s : Span) : String :=
  objectJson [("start", Nat.repr s.start), ("end", Nat.repr s.stop)]

/-- A stage as JSON. -/
def Stage.toJson (s : Stage) : String :=
  quoted s.text

/-- A code as JSON. -/
def ErrorCode.toJson (c : ErrorCode) : String :=
  Nat.repr c.number.toNat

/-- An error in the words of an expression as JSON. -/
def LexicalError.toJson (e : LexicalError) : String :=
  objectJson [("character", quoted e.character.toString), ("position", Nat.repr e.position)]

/-- An error in the structure of an expression as JSON. -/
def StructuralError.toJson (e : StructuralError) : String :=
  objectJson [("code", e.code.toJson), ("message", quoted e.reason), ("found", quoted e.found),
    ("position", Nat.repr e.position)]

/-- The name of the kind of an error in the value of an expression. -/
def EvaluationError.kind : EvaluationError → String
  | divisionByZero .. => "division_by_zero"
  | moduloByZero .. => "modulo_by_zero"
  | domain .. => "domain"
  | zeroToNegativePower .. => "zero_to_negative_power"
  | overflow .. => "overflow"
  | depthExceeded .. => "depth_exceeded"

/-- An error in the value of an expression as JSON. -/
def EvaluationError.toJson (e : EvaluationError) : String :=
  let details := match e with
    | domain base exponent _ => [("base", numberJson base), ("exponent", numberJson exponent)]
    | overflow context _ => [("context", quoted context)]
    | depthExceeded limit _ => [("limit", Nat.repr limit)]
    | _ => []
  objectJson (("kind", quoted e.kind) :: details ++ [("position", Nat.repr e.position)])

/-- An error of any stage as JSON. -/
def Error.toJson : Error → String
  | lexical e => e.toJson
  | structural e => e.toJson
  | evaluation e => e.toJson

/-- A report as JSON. -/
def Report.toJson (r : Report) : String :=
  objectJson [("stage", r.stage.toJson), ("code", r.code.toJson), ("message", quoted r.message),
    ("position", Nat.repr r.position)]

/-- An outcome as JSON. -/
def Outcome.toJson (o : Outcome) : String :=
  objectJson (("success", if o.success then "true" else "false")
    :: optionalField "value" (o.value.map numberJson)
    ++ optionalField "display" (o.display.map quoted)
    ++ optionalField "error" (o.error.map Report.toJson))

/-- The outcome of a text as JSON. -/
def evaluateJson (text : String) : String :=
  (Outcome.ofText text).toJson

end Calculator
