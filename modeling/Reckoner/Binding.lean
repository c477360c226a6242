import Reckoner.Error
import Reckoner.Token.Basic

/-!
# Binding Placeholders

Arguments are bound to placeholders by position: the first distinct name of a formula to the first
argument, the next one to the second, and so on. A name that occurs again means the same argument;
arguments beyond the distinct names are ignored.

Main definition: `bindPlaceholders`, the tokens with their placeholders replaced by numbers.
-/

namespace Reckoner

/-- Replaces placeholders where the names in `seen` were met before, in this order. -/
def bindFrom (args : List Binary64) : (seen : List String) → List Token →
    Except FormulaError (List Token)
  | _, [] => .ok []
  | seen, .placeholder name :: tokens =>
    let index := seen.idxOf name
    match args[index]? with
    | none => .error (.missingArgument name index args.length)
    | some x => do
      let bound ← bindFrom args (if index < seen.length then seen else seen ++ [name]) tokens
      .ok (.number x :: bound)
  | seen, token :: tokens => do
    let bound ← bindFrom args seen tokens
    .ok (token :: bound)

/-- Replaces every placeholder by the number of its argument. The first placeholder without an
argument is an error. -/
def bindPlaceholders (tokens : List Token) (args : List Binary64) :
    Except FormulaError (List Token) :=
  bindFrom args [] tokens

end Reckoner
