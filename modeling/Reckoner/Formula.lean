import Reckoner.Binding
import Reckoner.Expr.Eval
import Reckoner.Expr.Parser
import Reckoner.Limits
import Reckoner.Token.Scan

/-!
# Formulas

The value of a formula. A formula is checked for blankness and length, scanned, its placeholders
are bound to the arguments, and it is parsed and evaluated; the first error ends it. Messages quote
tokens as the formula spells them, a placeholder by its name and not by its argument.

Main definition: `evaluate`.
-/

namespace Reckoner

/-- Whether a formula has no character but blanks. -/
def isBlankText (formula : String) : Bool :=
  formula.toList.all isBlank

/-- Tokens that line up with lexemes, in the spelling of the lexemes. -/
def spell (tokens : List Token) (lexemes : List Lexeme) : List Spelled :=
  List.zipWith (fun t l => ⟨t, l.spelling⟩) tokens lexemes

/-- The value of a formula with arguments for its placeholders, within limits. -/
def evaluate (limits : Limits) (formula : String) (args : List Binary64) :
    Except FormulaError Binary64 :=
  if isBlankText formula then .error .empty
  else if limits.maxLength < formula.length then
    .error (.grammar (.tooLong formula.length limits.maxLength))
  else do
    let lexemes ← scan formula
    let tokens ← bindPlaceholders (lexemes.map Lexeme.token) args
    let e ← Expr.parse limits.maxDepth (spell tokens lexemes)
    e.eval

/-! ### One equation for each check -/

section
variable {limits : Limits} {formula : String} {args : List Binary64}

/-- A blank formula is empty, whatever its length is. -/
theorem evaluate_of_isBlankText (h : isBlankText formula = true) :
    evaluate limits formula args = .error .empty := by
  rw [evaluate, if_pos h]

/-- A formula that is not blank is measured against the limit before anything else. -/
theorem evaluate_of_lt_length (hblank : isBlankText formula = false)
    (hlength : limits.maxLength < formula.length) : evaluate limits formula args =
      .error (.grammar (.tooLong formula.length limits.maxLength)) := by
  rw [evaluate, if_neg (by simp [hblank]), if_pos hlength]

/-- The stages of a formula that is neither blank nor too long follow one another, and the first one
that fails decides. -/
theorem evaluate_of_length_le (hblank : isBlankText formula = false)
    (hlength : formula.length ≤ limits.maxLength) : evaluate limits formula args = (do
      let lexemes ← scan formula
      let tokens ← bindPlaceholders (lexemes.map Lexeme.token) args
      let e ← Expr.parse limits.maxDepth (spell tokens lexemes)
      e.eval) := by
  rw [evaluate, if_neg (by simp [hblank]), if_neg (by omega)]

end

end Reckoner
