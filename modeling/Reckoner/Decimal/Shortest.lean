import Reckoner.Decimal.Reading

/-!
# Shortest Decimals

The decimal with the fewest digits that reads back as a given number and, among those, the one
nearest to it.

A grid of decimals is the set of multiples of a power of ten. For one digit, two digits, and so
on up to 17, the two neighbours of the number on the grid that has so many digits are tried: the
first grid on which one of them reads back is taken. Of two neighbours that read back the nearer
wins, and `Tie` decides between equally near ones.

Main definitions:

* `Decimal` — a decimal `digits · 10 ^ scale`;
* `Decimal.onGrid?` — the nearest multiple of a power of ten that reads back;
* `Decimal.shortest` — the shortest decimal of a number.

Main statement: `Decimal.readsBack_shortest`, the shortest decimal reads back.
-/

namespace Reckoner

-- Powers are those of core, whatever other instances are in scope.
attribute [local instance (100000)] instPowNat

/-- The decimal `digits · 10 ^ scale`. -/
structure Decimal where
  /-- The significant digits, read as a natural. -/
  digits : Nat
  /-- The power of ten that scales them. -/
  scale : Int
  deriving DecidableEq

/-- Which of two equally near decimals is chosen. -/
inductive Tie where
  /-- The larger one. -/
  | up
  /-- The one whose last digit is even. -/
  | even
  deriving DecidableEq

namespace Decimal

/-- Whether the decimal is read as `x`. -/
def ReadsBack (d : Decimal) (x : Binary64) : Prop :=
  Binary64.ofDecimal d.digits d.scale = x

instance (d : Decimal) (x : Binary64) : Decidable (d.ReadsBack x) :=
  inferInstanceAs (Decidable (_ = _))

/-- A number of units in terms of `10 ^ scale`, as a numerator and a denominator. -/
def inPowers (units : Nat) (scale : Int) : Nat × Nat :=
  if 0 ≤ scale then (units, unitsPerOne * 10 ^ scale.toNat)
  else (units * 10 ^ (-scale).toNat, unitsPerOne)

/-- Whether a number of units is less than `10 ^ scale`. -/
def isBelowPower (units : Nat) (scale : Int) : Bool :=
  let (num, den) := inPowers units scale
  decide (num < den)

/-- The place of the leading digit: `10 ^ (k - 1) ≤ x < 10 ^ k` for a positive number `x` of so
many units. With `2 ^ e ≤ x < 2 ^ (e + 1)`, the place is found by trial from `e log₁₀ 2` rounded
down. -/
def leadingPlace (units : Nat) : Int :=
  let e : Int := (units.log2 : Int) - unitPlaces
  let guess := e * 30103 / 100000
  if isBelowPower units guess then guess
  else if isBelowPower units (guess + 1) then guess + 1
  else guess + 2

/-- Of the two multiples of `10 ^ scale` on either side of the positive number `x`, the nearer
one that reads back as `x`. -/
def onGrid? (tie : Tie) (x : Binary64) (scale : Int) : Option Decimal :=
  let (num, den) := inPowers x.units scale
  let q := num / den
  let r := num % den
  let below : Decimal := ⟨q, scale⟩
  let above : Decimal := ⟨q + 1, scale⟩
  let tieGoesUp := tie = .up ∨ q % 2 = 1
  if below.ReadsBack x then
    if above.ReadsBack x ∧ (den < 2 * r ∨ (den = 2 * r ∧ tieGoesUp)) then some above
    else some below
  else if above.ReadsBack x then some above
  else none

/-- The value of a number of units in full: with `p` places, a unit is `5 ^ p · 10 ^ (-p)`. -/
def exact (units : Nat) : Decimal :=
  ⟨units * 5 ^ unitPlaces, -unitPlaces⟩

/-- The shortest decimal that reads back as the positive number `x`; its exact value, should no
decimal of 17 digits read back. -/
def shortest (tie : Tie) (x : Binary64) : Decimal :=
  let place := leadingPlace x.units
  let onGrids := (List.range 17).findSome? fun (n : Nat) => onGrid? tie x (place - 1 - n)
  onGrids.getD (exact x.units)

/-! ### Reading back -/

/-- Powers of five grow at least like powers of four. -/
theorem le_log2_mul_five_pow {n : Nat} (k : Nat) (hn : 0 < n) : 2 * k ≤ (n * 5 ^ k).log2 := by
  have hpos : n * 5 ^ k ≠ 0 :=
    Nat.mul_ne_zero (Nat.pos_iff_ne_zero.1 hn) (Nat.pos_iff_ne_zero.1 (Nat.pow_pos (by decide)))
  rw [Nat.le_log2 hpos, Nat.pow_mul]
  calc (2 ^ 2) ^ k ≤ 5 ^ k := Nat.pow_le_pow_left (by decide) k
    _ ≤ n * 5 ^ k := Nat.le_mul_of_pos_left _ hn

/-- The value in full reads back. -/
theorem readsBack_exact {n : Nat} (h : Representable n) (hn : 0 < n) :
    (exact n).ReadsBack (.finite false n h) := by
  have hlog := le_log2_mul_five_pow unitPlaces hn
  have hplaces : unitPlaces = 1074 := rfl
  have hne : n * 5 ^ unitPlaces ≠ 0 :=
    Nat.mul_ne_zero (Nat.pos_iff_ne_zero.1 hn) (Nat.pos_iff_ne_zero.1 (Nat.pow_pos (by decide)))
  rw [ReadsBack, exact, Binary64.ofDecimal_neg hne (by omega) (by omega), unitsPerOne,
    Nat.mul_assoc, ← Nat.mul_pow, show 5 * 2 = 10 from rfl]
  exact Binary64.ofRatio_mul_right false (Nat.pow_pos (by decide)) h

/-- What is chosen on a grid reads back. -/
theorem readsBack_of_onGrid? {tie : Tie} {x : Binary64} {scale : Int} {d : Decimal}
    (h : onGrid? tie x scale = some d) : d.ReadsBack x := by
  unfold onGrid? at h
  dsimp only at h
  split at h
  · next hb =>
    split at h
    · next ha => exact Option.some.inj h ▸ ha.1
    · exact Option.some.inj h ▸ hb
  · split at h
    · next ha => exact Option.some.inj h ▸ ha
    · exact absurd h (by simp)

/-- **The shortest decimal reads back.** -/
theorem readsBack_shortest (tie : Tie) {n : Nat} (h : Representable n) (hn : 0 < n) :
    (shortest tie (.finite false n h)).ReadsBack (.finite false n h) := by
  unfold shortest
  dsimp only
  cases hs : (List.range 17).findSome? fun (i : Nat) =>
      onGrid? tie (.finite false n h)
        (leadingPlace (Binary64.units (.finite false n h)) - 1 - i) with
  | none => exact readsBack_exact h hn
  | some d =>
    obtain ⟨i, -, hi⟩ := List.exists_of_findSome?_eq_some hs
    exact readsBack_of_onGrid? hi

/-! ### Digits -/

/-- The significant digits without the zeros at their end, and the place of the point before
the first of them: the value is `0.d₁d₂… · 10 ^ place`. -/
def pointed (d : Decimal) : List Char × Int :=
  let text := Nat.toDigits 10 d.digits
  ((text.reverse.dropWhile (· = '0')).reverse, text.length + d.scale)

end Decimal

end Reckoner
