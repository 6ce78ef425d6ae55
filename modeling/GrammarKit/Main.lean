import GrammarKit.CommandLine.Command

/-!
# The command line program

Runs a command and writes its report.
-/

/-- Runs the command of the arguments, writes its output and gives its exit code. -/
def main (arguments : List String) : IO UInt32 := do
  match GrammarKit.CommandLine.run arguments with
  | .refused code => return code.toUInt32
  | .finished report =>
    IO.eprint report.errors
    IO.print report.output
    return report.code.toUInt32
  | .escaped label message =>
    IO.eprintln (label ++ ": " ++ message)
    return 1
