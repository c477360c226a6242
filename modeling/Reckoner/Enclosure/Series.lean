import Reckoner.Enclosure.Basic

/-!
# Enclosures of Elementary Functions

The constants `ln 2` and `π`, and the exponential, logarithm, sine and cosine, each from its power
series after a reduction of the argument. A series is summed until its next term is at most one
unit of the precision; from there on each term is at most half its predecessor, so that twice
the first term left out bounds all that is left out.

Main definitions:

* `Enclosure.ln2`, `Enclosure.pi` — the constants;
* `Enclosure.exp` — the exponential, as a fraction and a power of two;
* `Enclosure.log` — the natural logarithm of a fraction;
* `Enclosure.sineOfTurn` — the sine of an angle given in quarter turns and a rest.
-/

namespace Reckoner

-- Powers are those of core, whatever other instances are in scope.
attribute [local instance (100000)] instPowNat

namespace Enclosure

/-! ### Summation -/

/-- Sums a series: `step i t` is the term that follows the term `t` with index `i`, and `part i
t` is what the term adds to the sum. -/
def sumSeries (step part : Nat → Enclosure → Enclosure) :
    (fuel index : Nat) → (term sum : Enclosure) → Enclosure
  | 0, _, term, sum => sum.widen (2 * term.size)
  | fuel + 1, index, term, sum =>
    if term.size ≤ 1 then sum.widen (2 * term.size)
    else sumSeries step part fuel (index + 1) (step index term) (sum.add (part index term))

/-- The sum of `z ^ (2 i + 1) / (2 i + 1)` with `square = ± z ^ 2`: the inverse hyperbolic
tangent of `z` for the positive sign, its inverse tangent for the negative sign, `|z| ≤ 1/2`. -/
def oddSeries (p : Nat) (z square : Enclosure) : Enclosure :=
  sumSeries (fun _ t => t.mul p square) (fun i t => t.divNat (2 * i + 1)) p 0 z ⟨0, 0⟩

/-- The inverse hyperbolic tangent of `z`, `|z| ≤ 1/2`. -/
def artanh (p : Nat) (z : Enclosure) : Enclosure :=
  oddSeries p z (z.mul p z)

/-- The inverse tangent of `z`, `|z| ≤ 1/2`. -/
def arctan (p : Nat) (z : Enclosure) : Enclosure :=
  oddSeries p z (z.mul p z).neg

/-! ### Constants -/

/-- The natural logarithm of two: `2 artanh (1/3)`. -/
def ln2 (p : Nat) : Enclosure :=
  (artanh p (ofRatio p 1 3)).mulInt 2

/-- The circle number: `16 arctan (1/5) - 4 arctan (1/239)`. -/
def pi (p : Nat) : Enclosure :=
  ((arctan p (ofRatio p 1 5)).mulInt 16).sub ((arctan p (ofRatio p 1 239)).mulInt 4)

/-! ### Exponential and logarithm -/

/-- The sum of `r ^ i / i!`, the exponential of `r`, `|r| ≤ 1`. -/
def expSeries (p : Nat) (r : Enclosure) : Enclosure :=
  sumSeries (fun i t => (t.mul p r).divNat (i + 1)) (fun _ t => t) p 0 (ofRatio p 1 1) ⟨0, 0⟩

/-- The exponential of `t` as a fraction at precision `p` and a power of two: `t` is a multiple
`k` of `ln 2` and a rest between zero and one. Beyond an exponent of 2000 either way, that
exponent stands for all. -/
def exp (p : Nat) (t : Enclosure) : Enclosure × Int :=
  let ln2 := ln2 p
  let k := t.lo / ln2.lo
  if 2000 ≤ k then (ofRatio p 1 1, 2000)
  else if k ≤ -2000 then (ofRatio p 1 1, -2000)
  else (expSeries p (t.sub (ln2.mulInt k)), k)

/-- The natural logarithm of `n / 2 ^ e` for a positive `n`. With `2 ^ j` the power of two for
which `n / 2 ^ j` lies between three quarters and three halves, it is
`2 artanh ((n - 2 ^ j) / (n + 2 ^ j)) + (j - e) ln 2`. -/
def log (p : Nat) (n e : Nat) : Enclosure :=
  let j := if 3 * 2 ^ n.log2 ≤ 2 * n then n.log2 + 1 else n.log2
  let z := ofRatio p ((n : Int) - (2 ^ j : Nat)) (n + 2 ^ j)
  ((artanh p z).mulInt 2).add ((ln2 p).mulInt ((j : Int) - e))

/-! ### Sine and cosine -/

/-- The sum of alternating terms, each the one before times `- r ^ 2 / ((k + 1) (k + 2))`, where
`k` grows by two from `start`: the sine of `r` from `r` at one, the cosine from one at zero,
`|r| ≤ 1`. -/
def alternatingSeries (p : Nat) (r : Enclosure) (start : Nat) (first : Enclosure) : Enclosure :=
  let square := (r.mul p r).neg
  let step := fun i (t : Enclosure) =>
    (t.mul p square).divNat ((2 * i + start + 1) * (2 * i + start + 2))
  sumSeries step (fun _ t => t) p 0 first ⟨0, 0⟩

/-- The sine of `r`, `|r| ≤ 1`. -/
def sinSmall (p : Nat) (r : Enclosure) : Enclosure :=
  alternatingSeries p r 1 r

/-- The cosine of `r`, `|r| ≤ 1`. -/
def cosSmall (p : Nat) (r : Enclosure) : Enclosure :=
  alternatingSeries p r 0 (ofRatio p 1 1)

/-- An angle as a number of quarter turns and a rest of at most an eighth of a turn. -/
def quarterTurns (p : Nat) (angle : Enclosure) : Int × Enclosure :=
  let quarter := (pi p).divNat 2
  let n := (2 * angle.lo + quarter.lo) / (2 * quarter.lo)
  (n, angle.sub (quarter.mulInt n))

/-- The sine of so many quarter turns and the rest `r`. -/
def sineOfTurn (p : Nat) (n : Int) (r : Enclosure) : Enclosure :=
  let s := if n % 2 = 0 then sinSmall p r else cosSmall p r
  if n % 4 < 2 then s else s.neg

end Enclosure

end Reckoner
