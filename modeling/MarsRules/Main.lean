import MarsRules.CommandLine.Report

/-! The command line: reads the catalog that the arguments name and prints what the command says
about it. -/

namespace MarsRules.CommandLine

/-- What the file at a path holds, if it can be read. -/
def contents (path : String) : IO (Option String) := do
  try
    return some (← IO.FS.readFile path)
  catch _ =>
    return none

end MarsRules.CommandLine

open MarsRules CommandLine in
def main (args : List String) : IO UInt32 := do
  match command? args with
  | none =>
    IO.eprintln ("\n".intercalate (helpLines .program))
    return 2
  | some command =>
    let file ← match command.path? with
      | some path => contents path
      | none => pure none
    let outcome := command.run file
    for line in outcome.lines do
      IO.println line
    if let some failure := outcome.failure then
      IO.eprintln s!"Error: {failure}"
    return UInt32.ofNat outcome.exit
