import Reckoner.Constant
import Reckoner.Function.Basic
import Reckoner.Operator

/-!
# Expressions

The tree of a formula. Signs, operators, calls and their operands are nodes; parentheses and prefix
plus signs leave no trace.
-/

namespace Reckoner

/-- An expression. -/
inductive Expr where
  /-- A number. -/
  | literal (value : Binary64)
  /-- A named constant. -/
  | constant (constant : Constant)
  /-- An operand with its sign reversed. -/
  | negate (operand : Expr)
  /-- An operator between two operands. -/
  | binary (op : Operator) (left right : Expr)
  /-- A function with its arguments. -/
  | call (function : Function) (args : List Expr)

end Reckoner
