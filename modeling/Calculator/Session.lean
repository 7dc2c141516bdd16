import Calculator.Batch
import Calculator.Text.Blank

/-!
# Interactive sessions

A session greets, and then prompts for a line and answers it, until a line asks to quit or the
input ends.
-/

namespace Calculator.Session

/-- What a session prints first. -/
def greeting : String :=
  "Mini Arithmetic Language REPL\nType an expression, or 'quit' to exit.\n"

/-- What a session prints before it reads a line. -/
def prompt : String :=
  ">>> "

/-- Whether a text asks to end the session. Only the letters from `A` to `Z` have a small form. -/
def asksToQuit (cs : List Char) : Bool :=
  let word := String.ofList (cs.map Char.toLower)
  word == "quit" || word == "exit"

/-- What a session prints after it has read a line, or nothing if the line ends it. -/
def reply? (options : Options) (line : List Char) : Option String :=
  let text := trim line
  if text.isEmpty then some ""
  else if asksToQuit text then none
  else some (answerLine options.json (answer options.limits (String.ofList text)))

/-- The lines of a text, each with the line feed that ends it. -/
def linesOf (text : List Char) : List (List Char) :=
  text.foldr (fun c lines =>
    if c = '\n' then [c] :: lines
    else match lines with
      | [] => [[c]]
      | line :: rest => (c :: line) :: rest) []

/-- What a session prints from a prompt on, piece by piece. -/
def dialogue (options : Options) : List (List Char) → List String
  | [] => [prompt, "\n"]
  | line :: rest =>
    match reply? options line with
    | some text => prompt :: text :: dialogue options rest
    | none => [prompt]

/-- What a session prints over a whole input. -/
def transcript (options : Options) (input : String) : String :=
  String.join (greeting :: dialogue options (linesOf input.toList))

end Calculator.Session
