import Reckoner.CommandLine.Run

/-!
# The Program

Runs the command that the arguments ask for, prints what it has to say, and exits with its status.
The log that the flags for verbosity ask for is not kept.
-/

open Reckoner

/-- The program. -/
def main (arguments : List String) : IO UInt32 := do
  let outcome := runArguments arguments
  (← IO.getStdout).putStr outcome.stdout
  (← IO.getStderr).putStr outcome.stderr
  return outcome.exit.toUInt32
