import GraphQL.CommandLine.Run

/-!
# The program

Reads what the command line names, runs it and prints the outcome.
-/

set_option autoImplicit false

namespace GraphQL

/-- All that stands on an input. -/
partial def readToEnd (stream : IO.FS.Stream) (before : String) : IO String := do
  let line ← stream.getLine
  if line.isEmpty then return before else readToEnd stream (before ++ line)

/-- The text of a file; none if it cannot be read. -/
def readText (path : String) : IO (Option String) := do
  try
    return some (← IO.FS.readFile path)
  catch _ =>
    return none

/-- The input that an invocation needs. -/
def readInput (invocation : CommandLine.Invocation) : IO String := do
  match invocation.command with
  | .exec "-" _ _ _ => readToEnd (← IO.getStdin) ""
  | _ => return ""

end GraphQL

open GraphQL in
/-- Runs the command line. -/
def main (arguments : List String) : IO UInt32 := do
  let (input, file) ←
    match CommandLine.Invocation.ofArguments? arguments with
    | some invocation => do
      let file ← invocation.configPath.elim (pure none) readText
      pure (← readInput invocation, file)
    | none => pure ("", none)
  let outcome := CommandLine.run arguments input fun _ => file
  IO.print outcome.output
  return outcome.code.toUInt32
