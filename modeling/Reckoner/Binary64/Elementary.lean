import Reckoner.Binary64.Arithmetic
import Reckoner.Enclosure.Series

/-!
# Elementary Functions, Correctly Rounded

The exponential, logarithm, power and trigonometric functions on double-precision numbers. Each
result is the number nearest to the exact value: an enclosure of the exact value is refined until
both its bounds round to the same number.

Languages leave the precision of power, natural logarithm, exponential, sine, cosine and tangent
unspecified, and take them from the library of the platform. There the result may differ from the
correctly rounded one in the last digit, as it can for `10 ^ 23`. What is proved of all formulas
does not rely on how these functions round.

Main definitions:

* `Binary64.settle` — the number that ever finer enclosures agree on;
* `Binary64.exp`, `log`, `pow` — the exponential, the natural logarithm and powers;
* `Binary64.sin`, `cos`, `tan` — the trigonometric functions of an angle in radians.
-/

namespace Reckoner

-- Powers are those of core, whatever other instances are in scope.
attribute [local instance (100000)] instPowNat

namespace Binary64

/-! ### Refinement -/

/-- An enclosure of a result: its bounds are multiples of `2 ^ exponent`. -/
structure Estimate where
  /-- The bounds. -/
  bounds : Enclosure
  /-- The power of two that scales them. -/
  exponent : Int

/-- The number that both bounds of an estimate round to, if it is one. -/
def Estimate.agreed? (e : Estimate) : Option Binary64 :=
  let low := ofDyadic e.bounds.lo e.exponent
  let high := ofDyadic e.bounds.hi e.exponent
  if low = high then some low else none

/-- The number nearest to the middle of an estimate without its lowest bits: to the exact value,
where that has none of these bits and the estimate is finer than they are. -/
def Estimate.middle (e : Estimate) (bits : Nat) : Binary64 :=
  let n := (e.bounds.lo + e.bounds.hi + 2 ^ bits) / 2 ^ (bits + 1)
  ofDyadic n (e.exponent + bits)

/-- The precisions that are tried, in bits. -/
def precisions : List Nat :=
  [128, 256, 512, 1024]

/-- The precision of the last estimate, in bits. -/
def lastPrecision : Nat := 2048

/-- The number that the estimates of ever higher precision agree on. An exact value halfway
between two numbers is never agreed on; it has few bits, and is found in the middle of a last,
fine estimate. -/
def settle (estimate? : Nat → Option Estimate) : Binary64 :=
  let agreed? := precisions.findSome? fun p => (estimate? p).bind Estimate.agreed?
  agreed?.getD (((estimate? lastPrecision).map (·.middle (lastPrecision / 2))).getD nan)

/-- The distance of the leading bit of a positive number from that of one. -/
def leadingBit (units : Nat) : Int :=
  (units.log2 : Int) - unitPlaces

/-! ### Exponential and logarithm -/

/-- An estimate of the exponential of `t`, an enclosure at precision `p`. -/
def expEstimate (p : Nat) (t : Enclosure) : Estimate :=
  let (bounds, k) := Enclosure.exp p t
  ⟨bounds, k - p⟩

/-- The exponential. -/
def exp : Binary64 → Binary64
  | nan => nan
  | inf s => if s then zero false else inf false
  | finite s n _ =>
    settle fun p =>
      let p := p + (leadingBit n).toNat
      some (expEstimate p (Enclosure.ofRatio p (signedUnits s n) unitsPerOne))

/-- The natural logarithm; NaN for negative numbers, and negative infinity for zero. -/
def log : Binary64 → Binary64
  | nan => nan
  | inf s => if s then nan else inf false
  | finite s n _ =>
    if n = 0 then inf true
    else if s then nan
    else if n = unitsPerOne then zero false
    else settle fun p => some ⟨Enclosure.log p n unitPlaces, -p⟩

/-! ### Powers -/

/-- Whether a number is an integer. -/
def isInteger : Binary64 → Bool
  | finite _ n _ => n % unitsPerOne == 0
  | _ => false

/-- Whether a number is an odd integer. -/
def isOddInteger : Binary64 → Bool
  | finite _ n _ => n % unitsPerOne == 0 && n / unitsPerOne % 2 == 1
  | _ => false

/-- The power `x ^ y` of positive numbers of units `x`, and a signed number of units `y`, as the
exponential of `y` times the logarithm of `x`. -/
def powUnits (x : Nat) (y : Int) : Binary64 :=
  settle fun p =>
    let p := p + (leadingBit y.natAbs).toNat
    some (expEstimate p (((Enclosure.log p x unitPlaces).mulInt y).divNat unitsPerOne))

/-- The power `x ^ y`. Anything to the power zero and one to any power are one, even if the other
operand is NaN. A negative base has powers with integer exponents only, negative for odd ones. -/
def pow (x y : Binary64) : Binary64 :=
  if y.units = 0 ∧ y.isFinite then ofInt 1
  else if x = ofInt 1 then ofInt 1
  else
    let negative := x.isNegative && y.isOddInteger
    match x, y with
    | nan, _ => nan
    | _, nan => nan
    | inf _, y => if y.isNegative then zero negative else inf negative
    | finite _ m _, inf t =>
      if m = unitsPerOne then ofInt 1
      else if decide (m < unitsPerOne) = t then inf false
      else zero false
    | finite s m _, finite t n h =>
      if m = 0 then if t then inf negative else zero negative
      else if s && !(finite t n h).isInteger then nan
      else
        let magnitude := powUnits m (signedUnits t n)
        if negative then magnitude.neg else magnitude

/-! ### Trigonometric functions -/

/-- The quarter turns and the rest of an angle of signed units. Bits are added for a large angle,
whose quarter turns multiply the error of `π`, and for a small one, whose sine is small. -/
def turns (p : Nat) (angle : Int) : Nat × Int × Enclosure :=
  let p := p + (leadingBit angle.natAbs).natAbs
  (p, Enclosure.quarterTurns p (Enclosure.ofRatio p angle unitsPerOne))

/-- The sine. -/
def sin : Binary64 → Binary64
  | finite s n h =>
    if n = 0 then finite s n h
    else settle fun p =>
      let (p, turn, r) := turns p (signedUnits s n)
      some ⟨Enclosure.sineOfTurn p turn r, -p⟩
  | _ => nan

/-- The cosine, the sine of the angle advanced by a quarter turn. -/
def cos : Binary64 → Binary64
  | finite s n _ =>
    if n = 0 then ofInt 1
    else settle fun p =>
      let (p, turn, r) := turns p (signedUnits s n)
      some ⟨Enclosure.sineOfTurn p (turn + 1) r, -p⟩
  | _ => nan

/-- The tangent, the quotient of the sine and the cosine. -/
def tan : Binary64 → Binary64
  | finite s n h =>
    if n = 0 then finite s n h
    else settle fun p =>
      let (p, turn, r) := turns p (signedUnits s n)
      let quotient? := (Enclosure.sineOfTurn p turn r).div? p (Enclosure.sineOfTurn p (turn + 1) r)
      quotient?.map (⟨·, -p⟩)
  | _ => nan

end Binary64

end Reckoner
