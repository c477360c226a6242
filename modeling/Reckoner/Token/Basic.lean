import Reckoner.Decimal.Layout
import Reckoner.Operator

/-!
# Tokens

The tokens of a formula. `Token.text` is the canonical spelling of a token, the one that messages
quote when the text of the formula is not at hand.
-/

namespace Reckoner

/-- A token. -/
inductive Token where
  /-- A number: a numeral, or the argument bound to a placeholder. -/
  | number (value : Binary64)
  /-- The name of a constant or a function, as it is spelled. -/
  | name (text : String)
  /-- A placeholder, its name without the dollar sign. -/
  | placeholder (name : String)
  /-- An operator, or a sign before an operand. -/
  | operator (op : Operator)
  /-- An opening parenthesis. -/
  | openParen
  /-- A closing parenthesis. -/
  | closeParen
  /-- A comma. -/
  | comma
  /-- The end of the formula. -/
  | eof
  deriving DecidableEq

namespace Token

/-- The canonical spelling. -/
def text : Token → String
  | number x => x.text
  | name s => s
  | placeholder s => "$" ++ s
  | operator op => op.symbol.toString
  | openParen => "("
  | closeParen => ")"
  | comma => ","
  | eof => "end of formula"

end Token

end Reckoner
