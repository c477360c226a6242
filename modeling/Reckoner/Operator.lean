/-!
# Operators

The five operators of two operands. A minus or plus sign before an operand is written with the same
symbol as subtraction or addition.
-/

namespace Reckoner

/-- An operator of two operands. -/
inductive Operator where
  /-- The sum. -/
  | add
  /-- The difference. -/
  | sub
  /-- The product. -/
  | mul
  /-- The quotient. -/
  | div
  /-- The power. -/
  | pow
  deriving DecidableEq

namespace Operator

/-- The symbol an operator is written with. Powers may also be written `**`. -/
def symbol : Operator → Char
  | add => '+'
  | sub => '-'
  | mul => '*'
  | div => '/'
  | pow => '^'

/-- The name of the symbol, for listings. -/
def symbolName : Operator → String
  | add => "Plus"
  | sub => "Minus"
  | mul => "Star"
  | div => "Slash"
  | pow => "Caret"

/-- The name of the operation. -/
def operationName : Operator → String
  | add => "addition"
  | sub => "subtraction"
  | mul => "multiplication"
  | div => "division"
  | pow => "exponentiation"

/-- All operators. -/
def all : List Operator :=
  [add, sub, mul, div, pow]

end Operator

end Reckoner
