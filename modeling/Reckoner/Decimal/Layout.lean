import Reckoner.Decimal.Shortest

/-!
# Number Layouts

How a number is written. Every layout writes the digits of the shortest decimal; layouts differ
in where they switch to an exponent, in what marks an integer, and in how ties are broken.

Main definitions:

* `Layout` — the decisions of a layout;
* `Layout.plain` — no exponents and no mark on integers: messages, tokens and results;
* `Layout.detailed` — integers carry `.0` and extreme magnitudes an exponent: listings;
* `Layout.interchange` — the layout of numbers in JSON reports;
* `Binary64.write` — a number in a layout.
-/

namespace Reckoner

/-- The decisions of a layout. -/
structure Layout where
  /-- Which of two equally near shortest decimals is written. -/
  tie : Tie
  /-- Whether a number whose point stands at the given place, as in `0.d₁d₂… · 10 ^ place`, is
  written without an exponent. -/
  positional : Int → Bool
  /-- What follows the digits of an integer written without an exponent. -/
  integerMark : List Char
  /-- What stands before the digits of an exponent that is not negative. -/
  exponentPlus : List Char

namespace Layout

/-- Digits alone: never an exponent, and integers without a point. -/
def plain : Layout where
  tie := .up
  positional := fun _ => true
  integerMark := []
  exponentPlus := []

/-- Integers end in `.0`; magnitudes below `10⁻⁴` or from `10¹⁶` on have an exponent. -/
def detailed : Layout where
  tie := .up
  positional := fun place => decide (-3 ≤ place ∧ place ≤ 16)
  integerMark := ".0".toList
  exponentPlus := []

/-- Integers end in `.0`; magnitudes below `10⁻⁵` or from `10¹⁶` on have an exponent, which
carries its sign. -/
def interchange : Layout where
  tie := .even
  positional := fun place => decide (-4 ≤ place ∧ place ≤ 16)
  integerMark := ".0".toList
  exponentPlus := ['+']

/-- The digits with a point at the given place, filled up with zeros on either side. -/
def placePoint (layout : Layout) (digits : List Char) (place : Int) : List Char :=
  if place ≤ 0 then
    '0' :: '.' :: (List.replicate (-place).toNat '0' ++ digits)
  else
    let whole := digits.take place.toNat
    let zeros := List.replicate (place.toNat - digits.length) '0'
    match digits.drop place.toNat with
    | [] => whole ++ zeros ++ layout.integerMark
    | fraction => whole ++ '.' :: fraction

/-- The digits with a point after the first of them and the exponent that makes up for it. -/
def withExponent (layout : Layout) (digits : List Char) (place : Int) : List Char :=
  let exponent := place - 1
  let sign := if exponent < 0 then ['-'] else layout.exponentPlus
  let fraction := match digits.drop 1 with
    | [] => []
    | rest => '.' :: rest
  digits.take 1 ++ fraction ++ 'e' :: (sign ++ Nat.toDigits 10 exponent.natAbs)

/-- A number of units without its sign. -/
def magnitude (layout : Layout) (x : Binary64) : List Char :=
  if x.units = 0 then '0' :: layout.integerMark
  else
    let (digits, place) := (Decimal.shortest layout.tie x.abs).pointed
    if layout.positional place then layout.placePoint digits place
    else layout.withExponent digits place

end Layout

namespace Binary64

/-- A number in a layout. Negative numbers, zero included, open with a minus sign; NaN has no
sign. -/
def write (layout : Layout) (x : Binary64) : String :=
  match x with
  | nan => "NaN"
  | inf s => if s then "-inf" else "inf"
  | finite s _ _ =>
    String.ofList ((if s then ['-'] else []) ++ layout.magnitude x)

/-- A number as messages and results show it. -/
def text (x : Binary64) : String :=
  x.write .plain

end Binary64

end Reckoner
