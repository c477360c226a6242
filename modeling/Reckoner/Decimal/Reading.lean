import Reckoner.Binary64.Arithmetic
import Reckoner.Decimal.Numeral

/-!
# Reading Decimals

The double-precision number nearest to a decimal, and the reader of free-standing number texts.

Main definitions:

* `Binary64.ofDecimal` — the number nearest to `mantissa · 10 ^ scale`;
* `Numeral.value` — the number a numeral stands for;
* `Binary64.parse?` — reads a number text with its sign, or one of the words for infinity and
  NaN.
-/

namespace Reckoner

-- Powers are those of core, whatever other instances are in scope.
attribute [local instance (100000)] instPowNat

namespace Binary64

/-- The number nearest to `mantissa · 10 ^ scale`, positive. Decimals that are too large or too
small by their bit length alone are settled before any power of ten is computed: with
`2 ^ log2 m ≤ m < 2 ^ (log2 m + 1)` and `8 < 10`, the first is at least `2¹⁰²⁴`, and the second
below half the smallest positive number. -/
def ofDecimal (mantissa : Nat) (scale : Int) : Binary64 :=
  if mantissa = 0 then zero false
  else if 0 ≤ scale then
    if 1024 ≤ mantissa.log2 + 3 * scale.toNat then inf false
    else ofRatio false (mantissa * 10 ^ scale.toNat * unitsPerOne) 1
  else
    let places := (-scale).toNat
    if mantissa.log2 + unitPlaces + 2 ≤ 3 * places then zero false
    else ofRatio false (mantissa * unitsPerOne) (10 ^ places)

/-- Decimals with places after the point that are not too small for it are rounded from their
fraction. -/
theorem ofDecimal_neg {m k : Nat} (hm : m ≠ 0) (hk : 0 < k)
    (hlog : 3 * k < m.log2 + unitPlaces + 2) :
    ofDecimal m (-(k : Int)) = ofRatio false (m * unitsPerOne) (10 ^ k) := by
  have hscale : ¬(0 : Int) ≤ -(k : Int) := by omega
  have hplaces : (- -(k : Int)).toNat = k := by omega
  simp only [ofDecimal, if_neg hm, if_neg hscale, hplaces, if_neg (Nat.not_le.2 hlog)]

end Binary64

/-- The number a numeral stands for: the one nearest to its decimal value. -/
def Numeral.value (n : Numeral) : Binary64 :=
  Binary64.ofDecimal n.mantissa n.scale

namespace Binary64

/-- Reads an unsigned number text in full: a numeral, or `inf`, `infinity` or `nan` in any mix
of upper and lower case. -/
def parseUnsigned? (cs : List Char) : Option Binary64 :=
  let word := cs.map Char.toLower
  if word = "inf".toList ∨ word = "infinity".toList then some (inf false)
  else if word = "nan".toList then some nan
  else
    match Numeral.scan? cs with
    | some (n, []) => some n.value
    | _ => none

/-- Reads a number text in full: an optional sign, then an unsigned number text. -/
def parse? (text : String) : Option Binary64 :=
  match text.toList with
  | '-' :: cs => (parseUnsigned? cs).map neg
  | '+' :: cs => parseUnsigned? cs
  | cs => parseUnsigned? cs

end Binary64

end Reckoner
