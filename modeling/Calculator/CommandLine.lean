import Calculator.SelfTest
import Calculator.Session

/-!
# The command line

The arguments are read from the left. Options may stand anywhere before a `--`, and all else is an
expression. An option that stands twice, lacks its number or is not known is a mistake, and the
first mistake or the first request for the version or for help decides. The text of the help and
the wording of mistakes are left out: the exit code alone tells them apart.
-/

namespace Calculator

/-- What the arguments ask for. -/
structure Invocation where
  selfTest : Bool
  json : Bool
  maxDepth : Option Nat
  maxEvalDepth : Option Nat
  verbosity : Nat
  expressions : List String
deriving DecidableEq, Repr

/-- What reading the arguments comes to. -/
inductive Request where
  | run (invocation : Invocation)
  | version
  | help
  | mistake
deriving DecidableEq, Repr

namespace CommandLine

/-- The version of the program. -/
def version : String :=
  "0.1.0"

/-- The line that tells the name and the version of the program. -/
def versionLine : String :=
  "arith-cli " ++ version ++ "\n"

/-- Nothing asked for yet. -/
def empty : Invocation :=
  ⟨false, false, none, none, 0, []⟩

/-- A number of 64 bits, in digits with an optional plus sign before them. -/
def number? (text : String) : Option Nat :=
  let digits := match text.toList with
    | '+' :: cs => cs
    | cs => cs
  if digits.isEmpty || !digits.all Char.isDigit then none
  else
    let n := digitsValue digits
    if n < 2 ^ 64 then some n else none

/-- The options that take a number. -/
inductive DepthOption where
  | nesting
  | evaluation
deriving DecidableEq, Repr

/-- The option that takes a number of a given name. -/
def DepthOption.ofName? : List Char → Option DepthOption
  | name =>
    if name = "max-depth".toList then some nesting
    else if name = "max-eval-depth".toList then some evaluation
    else none

/-- Sets a depth, unless it is set already or the text is not a number. -/
def setDepth? (option : DepthOption) (text : String) (i : Invocation) : Option Invocation :=
  match option, i.maxDepth, i.maxEvalDepth with
  | .nesting, none, _ => (number? text).map fun n => { i with maxDepth := some n }
  | .evaluation, _, none => (number? text).map fun n => { i with maxEvalDepth := some n }
  | _, _, _ => none

/-- Reads a cluster of one-letter options, or says that the version or help is asked for. A letter
that is not known is a mistake. -/
def letters (i : Invocation) : List Char → Except Request Invocation
  | [] => .ok i
  | 'v' :: rest => letters { i with verbosity := i.verbosity + 1 } rest
  | 'V' :: _ => .error .version
  | 'h' :: _ => .error .help
  | _ :: _ => .error .mistake

/-- Reads an option without a number by its name. -/
def flag (i : Invocation) (name : List Char) : Except Request Invocation :=
  if name = "self-test".toList then
    if i.selfTest then .error .mistake else .ok { i with selfTest := true }
  else if name = "json".toList then
    if i.json then .error .mistake else .ok { i with json := true }
  else if name = "verbose".toList then .ok { i with verbosity := i.verbosity + 1 }
  else if name = "version".toList then .error .version
  else if name = "help".toList then .error .help
  else .error .mistake

/-- An argument by its form. -/
inductive Argument where
  | separator
  | named (name : List Char) (value : Option (List Char))
  | cluster (letters : List Char)
  | expression (text : String)
deriving DecidableEq, Repr

/-- The form of an argument. A single dash is an expression. -/
def Argument.ofString (text : String) : Argument :=
  match text.toList with
  | '-' :: '-' :: [] => separator
  | '-' :: '-' :: cs =>
    match cs.dropWhile (· != '=') with
    | _ :: value => named (cs.takeWhile (· != '=')) (some value)
    | [] => named cs none
  | '-' :: c :: cs => cluster (c :: cs)
  | _ => expression text

/-- Reads the arguments from the left, going on from what was asked for already. -/
def readFrom (i : Invocation) : List String → Request
  | [] => .run i
  | argument :: rest =>
    match Argument.ofString argument with
    | .separator => .run { i with expressions := i.expressions ++ rest }
    | .expression text => readFrom { i with expressions := i.expressions ++ [text] } rest
    | .cluster cs =>
      match letters i cs with
      | .ok i => readFrom i rest
      | .error request => request
    | .named name value =>
      match DepthOption.ofName? name, value with
      | some option, some text =>
        match setDepth? option (String.ofList text) i with
        | some i => readFrom i rest
        | none => .mistake
      | some option, none =>
        match rest with
        | [] => .mistake
        | text :: rest =>
          match setDepth? option text i with
          | some i => readFrom i rest
          | none => .mistake
      | none, none =>
        match flag i name with
        | .ok i => readFrom i rest
        | .error request => request
      | none, some _ => .mistake

/-- What the arguments ask for. -/
def read (arguments : List String) : Request :=
  readFrom empty arguments

/-- The options for the expressions of an invocation. -/
def optionsOf (i : Invocation) : Options :=
  ⟨⟨i.maxDepth.getD Limits.standard.nesting, i.maxEvalDepth.getD Limits.standard.evaluation⟩,
    i.json⟩

/-- The exit code and the output of an invocation that needs no input, if it is one: the built-in
cases, or else the given expressions. -/
def batch? (i : Invocation) : Option (Nat × String) :=
  if i.selfTest then
    let cases := SelfTest.run
    some (if SelfTest.allPassed cases then 0 else 1, SelfTest.text cases)
  else if i.expressions.isEmpty then none
  else
    let (ok, output) := runBatch (optionsOf i) i.expressions
    some (if ok then 0 else 1, output)

/-- The exit code and the output of the program. -/
def run (arguments : List String) (input : String) : Nat × String :=
  match read arguments with
  | .mistake => (2, "")
  | .help => (0, "")
  | .version => (0, versionLine)
  | .run i => (batch? i).getD (0, Session.transcript (optionsOf i) input)

end CommandLine

end Calculator
