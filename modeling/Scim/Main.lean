import Scim.Command.Help

/-!
# The program

Reads its arguments and its environment, and writes what `Command.run` says.
-/

namespace Scim.Main

/-- Writes an outcome and returns the exit code. -/
def write : Command.Outcome → IO UInt32
  | .help command => do
    IO.print (Command.helpText command)
    return 0
  | .version => do
    IO.print Command.versionText
    return 0
  | .usage e => do
    IO.eprintln ("Usage: " ++ Command.programName ++ " [OPTIONS] COMMAND [ARGS]...")
    IO.eprintln ("Error: " ++ e.message)
    return 2
  | .finished exitCode screen => do
    IO.eprint screen.errors
    IO.print screen.output
    return exitCode.toUInt32
  | .stopped e => do
    IO.eprintln e.message
    return 1
  | .undrawable e => do
    IO.eprintln e.message
    return 1

end Scim.Main

/-- Runs the program. -/
def main (arguments : List String) : IO UInt32 := do
  let length ← IO.getEnv Scim.lengthVariable
  let depth ← IO.getEnv Scim.depthVariable
  let environment (name : String) : Option String :=
    if name = Scim.lengthVariable then length
    else if name = Scim.depthVariable then depth
    else none
  Scim.Main.write (Scim.Command.run environment arguments)
