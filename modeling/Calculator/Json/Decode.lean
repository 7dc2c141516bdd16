import Calculator.Json.Read
import Calculator.Outcome

/-!
# Records from JSON

A record is an object with its fields in any order, or an array of all its fields in their order.
An object may have members of other names, which do not matter, but none of the record's names
twice. A field that may be absent may also be null.
-/

namespace Calculator

namespace Json

/-! ## Fields -/

/-- The fields of a record with the given names. -/
def fields? (names : List String) : Json → Option (List (Option Json))
  | array elements =>
    if elements.length = names.length then some (elements.map some) else none
  | object members => do
    let named ← members.mapM fun (name, value) => (textOf? name).map (·, value)
    names.mapM fun name =>
      match named.filter (·.1 == name) with
      | [] => some none
      | [(_, value)] => some (some value)
      | _ => none
  | _ => none

/-- A field that has to be there. -/
def required (read : Json → Option α) (field : Option Json) : Option α :=
  field.bind read

/-- A field that may be absent. -/
def optional (read : Json → Option α) : Option Json → Option (Option α)
  | none => some none
  | some null => some none
  | some j => (read j).map some

/-! ## Values of fields -/

/-- A truth value. -/
def bool? : Json → Option Bool
  | bool b => some b
  | _ => none

/-- A natural number below 2⁶⁴. -/
def natural? : Json → Option Nat
  | number n => n.natural?
  | _ => none

/-- A floating-point number. -/
def number? : Json → Option Binary64
  | number n => n.value?
  | _ => none

/-- A text. -/
def text? : Json → Option String
  | text parts => textOf? parts
  | _ => none

/-- A text of one character. -/
def char? : Json → Option Char
  | text parts =>
    match textChars? parts with
    | some [c] => some c
    | _ => none
  | _ => none

end Json

/-! ## Records -/

/-- The stage of a name. -/
def Stage.ofText? : String → Option Stage
  | "lexical" => some .lexical
  | "syntax" => some .structural
  | "evaluation" => some .evaluation
  | _ => none

/-- A stage is its name, or an object whose only member has that name and is null. -/
def Stage.ofJson? : Json → Option Stage
  | .text parts => (textOf? parts).bind Stage.ofText?
  | .object [(name, .null)] => (textOf? name).bind Stage.ofText?
  | _ => none

/-- A code is a number of 16 bits. -/
def ErrorCode.ofJson? (j : Json) : Option ErrorCode := do
  let n ← j.natural?
  if n < 2 ^ 16 then some ⟨.ofNat n⟩ else none

/-- A span from JSON. -/
def Span.ofJson? (j : Json) : Option Span := do
  match ← j.fields? ["start", "end"] with
  | [start, stop] =>
    return ⟨← Json.required Json.natural? start, ← Json.required Json.natural? stop⟩
  | _ => none

/-- An error in the words of an expression from JSON. -/
def LexicalError.ofJson? (j : Json) : Option LexicalError := do
  match ← j.fields? ["character", "position"] with
  | [character, position] =>
    return ⟨← Json.required Json.char? character, ← Json.required Json.natural? position⟩
  | _ => none

/-- An error in the structure of an expression from JSON. -/
def StructuralError.ofJson? (j : Json) : Option StructuralError := do
  match ← j.fields? ["code", "message", "found", "position"] with
  | [code, message, found, position] =>
    return ⟨← Json.required ErrorCode.ofJson? code, ← Json.required Json.text? message,
      ← Json.required Json.text? found, ← Json.required Json.natural? position⟩
  | _ => none

namespace EvaluationError

/-- The error of a kind from its other fields. -/
def ofFields? (kind : String) (j : Json) : Option EvaluationError := do
  match kind with
  | "division_by_zero" =>
    match ← j.fields? ["position"] with
    | [position] => return divisionByZero (← Json.required Json.natural? position)
    | _ => none
  | "modulo_by_zero" =>
    match ← j.fields? ["position"] with
    | [position] => return moduloByZero (← Json.required Json.natural? position)
    | _ => none
  | "domain" =>
    match ← j.fields? ["base", "exponent", "position"] with
    | [base, exponent, position] =>
      return domain (← Json.required Json.number? base) (← Json.required Json.number? exponent)
        (← Json.required Json.natural? position)
    | _ => none
  | "zero_to_negative_power" =>
    match ← j.fields? ["position"] with
    | [position] => return zeroToNegativePower (← Json.required Json.natural? position)
    | _ => none
  | "overflow" =>
    match ← j.fields? ["context", "position"] with
    | [context, position] =>
      return overflow (← Json.required Json.text? context) (← Json.required Json.natural? position)
    | _ => none
  | "depth_exceeded" =>
    match ← j.fields? ["limit", "position"] with
    | [limit, position] =>
      return depthExceeded (← Json.required Json.natural? limit)
        (← Json.required Json.natural? position)
    | _ => none
  | _ => none

/-- How many levels of arrays and objects an error may have, in members that do not matter too. -/
def maxLevels : Nat :=
  127

/-- The kind of an error, which stands in a member of that name or in the first place, and its
other fields. -/
def kindAndFields? : Json → Option (String × Json)
  | .array (kind :: fields) => kind.text?.map (·, .array fields)
  | .object members =>
    let isKind := fun (member : List TextPart × Json) => textOf? member.1 == some "kind"
    match members.filter isKind with
    | [(_, kind)] => kind.text?.map (·, .object (members.filter (!isKind ·)))
    | _ => none
  | _ => none

/-- An error in the value of an expression from JSON. Which fields it has depends on its kind, so
the whole has to be sound before any field is looked at. -/
def ofJson? (j : Json) : Option EvaluationError := do
  if j.isSound maxLevels then
    let (kind, fields) ← kindAndFields? j
    ofFields? kind fields
  else none

end EvaluationError

/-- A report from JSON. -/
def Report.ofJson? (j : Json) : Option Report := do
  match ← j.fields? ["stage", "code", "message", "position"] with
  | [stage, code, message, position] =>
    return ⟨← Json.required Stage.ofJson? stage, ← Json.required ErrorCode.ofJson? code,
      ← Json.required Json.text? message, ← Json.required Json.natural? position⟩
  | _ => none

/-- An outcome from JSON. -/
def Outcome.ofJson? (j : Json) : Option Outcome := do
  match ← j.fields? ["success", "value", "display", "error"] with
  | [success, value, display, error] =>
    return ⟨← Json.required Json.bool? success, ← Json.optional Json.number? value,
      ← Json.optional Json.text? display, ← Json.optional Report.ofJson? error⟩
  | _ => none

end Calculator
