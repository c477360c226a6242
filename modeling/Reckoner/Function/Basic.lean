import Reckoner.Text.Name

/-!
# Functions

The built-in functions, their names, and how many arguments each takes.

Main definitions:

* `Function` — the functions;
* `Function.ofName?` — the function of a name, in any mix of upper and lower case;
* `Function.arity` — the number of arguments a function takes, with `Arity.Accepts` for the test.
-/

namespace Reckoner

/-- A built-in function. -/
inductive Function where
  /-- The square root. -/
  | sqrt
  /-- The power. -/
  | pow
  /-- The absolute value. -/
  | abs
  /-- The nearest integer, halves going up. -/
  | round
  /-- The integer below. -/
  | floor
  /-- The integer above. -/
  | ceil
  /-- The smallest argument. -/
  | min
  /-- The largest argument. -/
  | max
  /-- The sine of an angle in radians. -/
  | sin
  /-- The cosine of an angle in radians. -/
  | cos
  /-- The tangent of an angle in radians. -/
  | tan
  /-- The natural logarithm. -/
  | log
  /-- The exponential. -/
  | exp
  deriving DecidableEq

/-- How many arguments a function takes. -/
inductive Arity where
  /-- This many. -/
  | exactly (count : Nat)
  /-- This many or more. -/
  | atLeast (count : Nat)
  deriving DecidableEq

namespace Arity

/-- The fewest arguments. -/
def least : Arity → Nat
  | exactly n => n
  | atLeast n => n

/-- The most arguments, if there is a limit. -/
def most? : Arity → Option Nat
  | exactly n => some n
  | atLeast _ => none

/-- Whether a number of arguments is accepted. -/
def Accepts (a : Arity) (count : Nat) : Prop :=
  match a with
  | exactly n => count = n
  | atLeast n => n ≤ count

instance (a : Arity) (count : Nat) : Decidable (a.Accepts count) :=
  match a with
  | exactly n => inferInstanceAs (Decidable (count = n))
  | atLeast n => inferInstanceAs (Decidable (n ≤ count))

/-- The arity in words. -/
def text : Arity → String
  | exactly n => s!"exactly {n}"
  | atLeast n => s!"at least {n}"

end Arity

namespace Function

/-- The name a function goes by. -/
def name : Function → String
  | sqrt => "sqrt"
  | pow => "pow"
  | abs => "abs"
  | round => "round"
  | floor => "floor"
  | ceil => "ceil"
  | min => "min"
  | max => "max"
  | sin => "sin"
  | cos => "cos"
  | tan => "tan"
  | log => "log"
  | exp => "exp"

/-- All functions. -/
def all : List Function :=
  [sqrt, pow, abs, round, floor, ceil, min, max, sin, cos, tan, log, exp]

/-- The function of a name, in any mix of upper and lower case. -/
def ofName? (name : String) : Option Function :=
  all.find? fun f => sameButCase f.name name

/-- Every function is listed. -/
theorem mem_all (f : Function) : f ∈ all := by
  cases f <;> decide

/-- A name is that of a function if it is spelled like it, in any mix of upper and lower case. -/
theorem ofName?_eq_some_iff {name : String} {f : Function} :
    ofName? name = some f ↔ sameButCase f.name name = true :=
  find?_sameButCase_eq_some_iff (by decide) (mem_all f)

/-- The number of arguments a function takes. -/
def arity : Function → Arity
  | pow => .exactly 2
  | min => .atLeast 2
  | max => .atLeast 2
  | _ => .exactly 1

end Function

end Reckoner
