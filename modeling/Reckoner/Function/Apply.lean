import Reckoner.Binary64.Elementary
import Reckoner.Error

/-!
# Applying Functions

The value of a function at its arguments. The number of arguments is checked first; square roots
and logarithms then refuse arguments outside their domain. A result may still be infinite or NaN:
the evaluator checks every result.
-/

namespace Reckoner

namespace Function

/-- Checks a number of arguments against the arity of a function. -/
def checkCount (f : Function) (count : Nat) : Except FormulaError Unit :=
  if f.arity.Accepts count then .ok () else .error (.grammar (.argumentCount f count))

/-- The value of a function at arguments of the right number. The smallest of no numbers is
infinity, the largest negative infinity; NaN gives way to any number. -/
def compute : Function → List Binary64 → Except FormulaError Binary64
  | sqrt, [x] =>
    if x.lt (.zero false) then .error (.domain (.sqrtOfNegative x)) else .ok x.sqrt
  | log, [x] =>
    if x.le (.zero false) then .error (.domain (.logOfNonPositive x)) else .ok x.log
  | pow, [x, y] => .ok (x.pow y)
  | abs, [x] => .ok x.abs
  | round, [x] => .ok x.round
  | floor, [x] => .ok x.floor
  | ceil, [x] => .ok x.ceil
  | sin, [x] => .ok x.sin
  | cos, [x] => .ok x.cos
  | tan, [x] => .ok x.tan
  | exp, [x] => .ok x.exp
  | min, xs => .ok (xs.foldl Binary64.min (.inf false))
  | max, xs => .ok (xs.foldl Binary64.max (.inf true))
  | f, xs => .error (.grammar (.argumentCount f xs.length))

/-- The value of a function at its arguments, their number checked. -/
def apply (f : Function) (args : List Binary64) : Except FormulaError Binary64 := do
  f.checkCount args.length
  f.compute args

end Function

end Reckoner
