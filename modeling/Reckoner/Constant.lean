import Reckoner.Decimal.Reading
import Reckoner.Text.Name

/-!
# Constants

The named constants: the circle number and the base of the natural logarithm, each the
double-precision number nearest to it.
-/

namespace Reckoner

/-- A named constant. -/
inductive Constant where
  /-- The circle number. -/
  | pi
  /-- The base of the natural logarithm. -/
  | e
  deriving DecidableEq

namespace Constant

/-- The name a constant goes by. -/
def name : Constant → String
  | pi => "pi"
  | e => "e"

/-- All constants. -/
def all : List Constant :=
  [pi, e]

/-- The constant of a name, in any mix of upper and lower case. -/
def ofName? (name : String) : Option Constant :=
  all.find? fun c => sameButCase c.name name

/-- Every constant is listed. -/
theorem mem_all (c : Constant) : c ∈ all := by
  cases c <;> decide

/-- A name is that of a constant if it is spelled like it, in any mix of upper and lower case. -/
theorem ofName?_eq_some_iff {name : String} {c : Constant} :
    ofName? name = some c ↔ sameButCase c.name name = true :=
  find?_sameButCase_eq_some_iff (by decide) (mem_all c)

/-- The number a constant stands for, from its first sixteen digits. -/
def value : Constant → Binary64
  | pi => Binary64.ofDecimal 3141592653589793 (-15)
  | e => Binary64.ofDecimal 2718281828459045 (-15)

end Constant

end Reckoner
