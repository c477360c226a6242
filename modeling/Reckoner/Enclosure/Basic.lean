/-!
# Enclosures

Fixed-point interval arithmetic. An enclosure at precision `p` is a pair of integers that stand
for the bounds `lo · 2⁻ᵖ` and `hi · 2⁻ᵖ` of a real number. Every operation rounds its lower bound
down and its upper bound up, so that the exact result of an operation lies in the result of the
enclosures of its operands.
-/

namespace Reckoner

-- Powers are those of core, whatever other instances are in scope.
attribute [local instance (100000)] instPowNat

/-- Bounds of a real number, in multiples of `2⁻ᵖ` for a precision `p` known from the context. -/
structure Enclosure where
  /-- The lower bound. -/
  lo : Int
  /-- The upper bound. -/
  hi : Int
  deriving DecidableEq

namespace Enclosure

/-- The quotient of an integer and a positive natural, rounded up. -/
def ceilDiv (n : Int) (d : Nat) : Int :=
  -(-n / d)

/-- The fraction `num / den`. -/
def ofRatio (p : Nat) (num : Int) (den : Nat) : Enclosure :=
  ⟨num * 2 ^ p / den, ceilDiv (num * 2 ^ p) den⟩

/-- The sum. -/
def add (a b : Enclosure) : Enclosure :=
  ⟨a.lo + b.lo, a.hi + b.hi⟩

/-- The number with its sign reversed. -/
def neg (a : Enclosure) : Enclosure :=
  ⟨-a.hi, -a.lo⟩

/-- The difference. -/
def sub (a b : Enclosure) : Enclosure :=
  a.add b.neg

/-- The product with an integer. -/
def mulInt (a : Enclosure) (k : Int) : Enclosure :=
  if 0 ≤ k then ⟨a.lo * k, a.hi * k⟩ else ⟨a.hi * k, a.lo * k⟩

/-- The quotient by a positive natural. -/
def divNat (a : Enclosure) (d : Nat) : Enclosure :=
  ⟨a.lo / d, ceilDiv a.hi d⟩

/-- The product: its bounds are among the products of the bounds. -/
def mul (p : Nat) (a b : Enclosure) : Enclosure :=
  let w := a.lo * b.lo
  let x := a.lo * b.hi
  let y := a.hi * b.lo
  let z := a.hi * b.hi
  ⟨min (min w x) (min y z) / 2 ^ p, ceilDiv (max (max w x) (max y z)) (2 ^ p)⟩

/-- The quotient by a positive number: each bound divides by the end of the divisor that moves
it outwards. -/
def divPos (p : Nat) (a b : Enclosure) : Enclosure :=
  let low := if 0 ≤ a.lo then b.hi else b.lo
  let high := if 0 ≤ a.hi then b.lo else b.hi
  ⟨a.lo * 2 ^ p / low, ceilDiv (a.hi * 2 ^ p) high.toNat⟩

/-- The quotient, unless the divisor may be zero. -/
def div? (p : Nat) (a b : Enclosure) : Option Enclosure :=
  if 0 < b.lo then some (a.divPos p b)
  else if b.hi < 0 then some (a.neg.divPos p b.neg)
  else none

/-- A bound of the absolute value. -/
def size (a : Enclosure) : Nat :=
  max a.lo.natAbs a.hi.natAbs

/-- The enclosure with both bounds moved outwards. -/
def widen (a : Enclosure) (r : Nat) : Enclosure :=
  ⟨a.lo - r, a.hi + r⟩

end Enclosure

end Reckoner
