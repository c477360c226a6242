import Reckoner.CommandLine.Arguments
import Reckoner.CommandLine.Report
import Reckoner.CommandLine.Tour

/-!
# Running Commands

The outcome of the program for its arguments. Success is exit status 0, a formula in error 1, and
arguments that are not understood 2. The log that the flags for verbosity ask for is left out.
-/

namespace Reckoner

/-- What the program says about its arguments. -/
def usage : String :=
  String.join
    [ "Arithmetic formula calculator\n\n",
      "Usage: fcalc [-v] eval [--json] [--max-length N] [--max-depth N] FORMULA [NUMBER]...\n",
      "       fcalc [-v] tokens FORMULA\n",
      "       fcalc [-v] tour\n",
      "       fcalc --help | --version\n" ]

/-- The outcome of a command. -/
def Command.run : Command → Outcome
  | version => .success "fcalc 0.1.0\n"
  | help => .success usage
  | eval formula args json limits =>
    let report := if json then reportJson else reportPlain
    report formula (evaluate limits formula args)
  | tokens formula => reportTokens formula
  | tour => .success tourText

/-- The outcome of the program for its arguments. With `-v` or `--verbose` among them, the program
also writes its log to the error output, which is no part of the outcome. -/
def runArguments (arguments : List String) : Outcome :=
  match Command.ofArguments? arguments with
  | some command => command.run
  | none => ⟨2, "", usage⟩

end Reckoner
