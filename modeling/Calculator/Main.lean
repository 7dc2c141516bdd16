import Calculator.CommandLine

/-!
# The program

Reads the arguments and prints what they ask for. A session reads the standard input line by line,
so that every answer stands before the next line is read.
-/

namespace Calculator.Session

/-- Prompts for lines and answers them until one asks to quit or the input ends. -/
partial def converse (options : Options) (input output : IO.FS.Stream) : IO Unit := do
  output.putStr prompt
  output.flush
  let line ← input.getLine
  if line.isEmpty then output.putStr "\n"
  else match reply? options line.toList with
    | some text =>
      output.putStr text
      converse options input output
    | none => return

end Calculator.Session

/-- The program. A mistake in the arguments and a request for help are told by the exit code
alone. -/
def main (arguments : List String) : IO UInt32 := do
  let output ← IO.getStdout
  match Calculator.CommandLine.read arguments with
  | .mistake => return 2
  | .help => return 0
  | .version =>
    output.putStr Calculator.CommandLine.versionLine
    return 0
  | .run i =>
    match Calculator.CommandLine.batch? i with
    | some (code, text) =>
      output.putStr text
      return code.toUInt32
    | none =>
      output.putStr Calculator.Session.greeting
      Calculator.Session.converse (Calculator.CommandLine.optionsOf i) (← IO.getStdin) output
      return 0
