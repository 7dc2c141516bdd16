import Calculator.Json.Value

/-!
# Reading JSON

The grammar of JSON on the characters of a text. Nothing is said of a text that is not in it except
that it is not.
-/

namespace Calculator.Json

/-- Whether a character may stand between two words. -/
def isSpace (c : Char) : Bool :=
  c == ' ' || c == '\n' || c == '\t' || c == '\r'

/-- A text without the spaces at its front. -/
def skipSpace (cs : List Char) : List Char :=
  cs.dropWhile isSpace

/-- The number that a hexadecimal digit denotes. -/
def hexValue? (c : Char) : Option Nat :=
  if c.isDigit then some (digitValue c)
  else if 'a' ≤ c && c ≤ 'f' then some (c.toNat - 'a'.toNat + 10)
  else if 'A' ≤ c && c ≤ 'F' then some (c.toNat - 'A'.toNat + 10)
  else none

/-- The character that an escape of one letter denotes. -/
def escaped? : Char → Option Char
  | '"' => some '"'
  | '\\' => some '\\'
  | '/' => some '/'
  | 'b' => some '\x08'
  | 'f' => some '\x0c'
  | 'n' => some '\n'
  | 'r' => some '\r'
  | 't' => some '\t'
  | _ => none

/-- The rest of a text behind its opening quotation mark, and what follows the closing one. -/
def readText : List Char → Option (List TextPart × List Char)
  | [] => none
  | '"' :: rest => some ([], rest)
  | '\\' :: 'u' :: a :: b :: c :: d :: rest => do
    let unit := 4096 * (← hexValue? a) + 256 * (← hexValue? b) + 16 * (← hexValue? c)
      + (← hexValue? d)
    let (parts, rest) ← readText rest
    return (.unit unit :: parts, rest)
  | '\\' :: e :: rest => do
    let c ← escaped? e
    let (parts, rest) ← readText rest
    return (.char c :: parts, rest)
  | c :: rest =>
    if c.toNat < 0x20 || c == '\\' then none
    else do
      let (parts, rest) ← readText rest
      return (.char c :: parts, rest)

/-- The digits at the front of a text, at least one, and what follows them. -/
def readDigits (cs : List Char) : Option (List Char × List Char) :=
  match cs.takeWhile Char.isDigit with
  | [] => none
  | digits => some (digits, cs.dropWhile Char.isDigit)

/-- The digits before the point of a number. Only zero itself starts with a zero. -/
def readWhole : List Char → Option (List Char × List Char)
  | '0' :: rest => some (['0'], rest)
  | cs => readDigits cs

/-- The point of a number and the digits after it, if there is a point. -/
def readFraction : List Char → Option (Option (List Char) × List Char)
  | '.' :: rest => (readDigits rest).map fun (digits, rest) => (some digits, rest)
  | cs => some (none, cs)

/-- The exponent behind its letter. -/
def readSignedDigits (cs : List Char) : Option (Int × List Char) :=
  match cs with
  | '-' :: rest => (readDigits rest).map fun (digits, rest) => (-(digitsValue digits : Int), rest)
  | '+' :: rest => (readDigits rest).map fun (digits, rest) => ((digitsValue digits : Int), rest)
  | rest => (readDigits rest).map fun (digits, rest) => ((digitsValue digits : Int), rest)

/-- The exponent of a number, if it has one. -/
def readExponent : List Char → Option (Option Int × List Char)
  | 'e' :: rest => (readSignedDigits rest).map fun (exponent, rest) => (some exponent, rest)
  | 'E' :: rest => (readSignedDigits rest).map fun (exponent, rest) => (some exponent, rest)
  | cs => some (none, cs)

/-- A number without its sign, and what follows it. -/
def readUnsigned (negative : Bool) (cs : List Char) : Option (JsonNumber × List Char) := do
  let (whole, rest) ← readWhole cs
  let (fraction, rest) ← readFraction rest
  let (exponent, rest) ← readExponent rest
  return (⟨negative, whole, fraction, exponent⟩, rest)

/-- A number and what follows it. -/
def readNumber : List Char → Option (JsonNumber × List Char)
  | '-' :: rest => readUnsigned true rest
  | cs => readUnsigned false cs

mutual

/-- A value at the front of a text, and what follows it. The recursion is bounded by `fuel`, which
is enough when it exceeds twice the length of the text. -/
def readValue : Nat → List Char → Option (Json × List Char)
  | 0, _ => none
  | fuel + 1, cs =>
    match skipSpace cs with
    | 'n' :: 'u' :: 'l' :: 'l' :: rest => some (.null, rest)
    | 't' :: 'r' :: 'u' :: 'e' :: rest => some (.bool true, rest)
    | 'f' :: 'a' :: 'l' :: 's' :: 'e' :: rest => some (.bool false, rest)
    | '"' :: rest => (readText rest).map fun (parts, rest) => (.text parts, rest)
    | '[' :: rest =>
      match skipSpace rest with
      | ']' :: rest => some (.array [], rest)
      | rest => (readElements fuel rest).map fun (elements, rest) => (.array elements, rest)
    | '{' :: rest =>
      match skipSpace rest with
      | '}' :: rest => some (.object [], rest)
      | rest => (readMembers fuel rest).map fun (members, rest) => (.object members, rest)
    | cs => (readNumber cs).map fun (n, rest) => (.number n, rest)

/-- The elements of an array up to its closing bracket, at least one. -/
def readElements : Nat → List Char → Option (List Json × List Char)
  | 0, _ => none
  | fuel + 1, cs => do
    let (element, rest) ← readValue fuel cs
    match skipSpace rest with
    | ']' :: rest => return ([element], rest)
    | ',' :: rest =>
      let (elements, rest) ← readElements fuel rest
      return (element :: elements, rest)
    | _ => none

/-- The members of an object up to its closing brace, at least one. -/
def readMembers : Nat → List Char → Option (List (List TextPart × Json) × List Char)
  | 0, _ => none
  | fuel + 1, cs =>
    match skipSpace cs with
    | '"' :: rest => do
      let (name, rest) ← readText rest
      match skipSpace rest with
      | ':' :: rest =>
        let (value, rest) ← readValue fuel rest
        match skipSpace rest with
        | '}' :: rest => return ([(name, value)], rest)
        | ',' :: rest =>
          let (members, rest) ← readMembers fuel rest
          return ((name, value) :: members, rest)
        | _ => none
      | _ => none
    | _ => none

end

/-- The value that a text is, with nothing but spaces around it. -/
def read? (text : String) : Option Json := do
  let cs := text.toList
  let (value, rest) ← readValue (2 * cs.length + 1) cs
  if skipSpace rest = [] then some value else none

end Calculator.Json
