/-!
# Binary Floating-Point Numbers

`Binary64` is the set of double-precision numbers of the binary floating-point standard: one
NaN, two infinities, and the finite numbers `± units · 2⁻¹⁰⁷⁴`. A finite number is kept as a
whole number of the smallest positive number, so that sums, products and comparisons are exact
statements about naturals, and each number has exactly one form.

Main definitions:

* `Binary64` — the numbers;
* `Representable` — which counts of units are numbers: below `2²⁰⁹⁸`, with at most 53
  significant bits;
* `roundUnits` — the representable neighbour of a fraction, ties to even;
* `Binary64.ofRatio` — the number nearest to a fraction of units.

Main statements: `representable_roundUnits`, rounding yields a representable count unless it
overflows, and `roundUnits_mul_right`, a representable count is rounded to itself.
-/

namespace Reckoner

-- Powers are those of core, whatever other instances are in scope.
attribute [local instance (100000)] instPowNat

/-- The unit is `2 ^ (-unitPlaces)`. -/
def unitPlaces : Nat := 1074

/-- The number one, counted in units. -/
def unitsPerOne : Nat := 2 ^ unitPlaces

/-- The first power of two beyond all finite numbers, `2¹⁰²⁴`, counted in units. -/
def unitsLimit : Nat := 2 ^ (unitPlaces + 1024)

/-- The number of significant bits of a number. -/
def significantBits : Nat := 53

/-- A count of units is **representable** if it is below the limit and all its bits lie among
the leading significant ones. -/
def Representable (n : Nat) : Prop :=
  n < unitsLimit ∧ 2 ^ (n.log2 + 1 - significantBits) ∣ n

instance (n : Nat) : Decidable (Representable n) :=
  inferInstanceAs (Decidable (_ ∧ _))

/-- A double-precision number. All NaNs are one, so that equality of two numbers is equality of
what they stand for, the sign of zero included. -/
inductive Binary64 where
  /-- Not a number. -/
  | nan
  /-- An infinity. -/
  | inf (negative : Bool)
  /-- The number `± units · 2⁻¹⁰⁷⁴`. -/
  | finite (negative : Bool) (units : Nat) (representable : Representable units)
  deriving DecidableEq

/-! ### Rounding -/

/-- The quotient `num / den` rounded to the nearest natural, ties to even. -/
def roundDiv (num den : Nat) : Nat :=
  let q := num / den
  let r := num % den
  if 2 * r < den then q else if den < 2 * r then q + 1 else q + q % 2

/-- The spacing of the representable counts around the fraction `num / den` is `2 ^ spacingLog2
num den`. -/
def spacingLog2 (num den : Nat) : Nat :=
  (num / den).log2 + 1 - significantBits

/-- The fraction `num / den` of a unit rounded to 53 significant bits, ties to even. -/
def roundUnits (num den : Nat) : Nat :=
  roundDiv num (den * 2 ^ spacingLog2 num den) * 2 ^ spacingLog2 num den

/-- Rounding moves a quotient up by at most one. -/
theorem roundDiv_le (num den : Nat) : roundDiv num den ≤ num / den + 1 := by
  unfold roundDiv
  dsimp only
  split
  · omega
  · split <;> omega

/-- A rounded fraction fits into the significant bits, or is the next power of two. -/
theorem roundDiv_spacing_le (num den : Nat) :
    roundDiv num (den * 2 ^ spacingLog2 num den) ≤ 2 ^ significantBits := by
  have h := roundDiv_le num (den * 2 ^ spacingLog2 num den)
  rw [← Nat.div_div_eq_div_mul] at h
  have hlt : num / den / 2 ^ spacingLog2 num den < 2 ^ significantBits := by
    rw [Nat.div_lt_iff_lt_mul (Nat.two_pow_pos _), ← Nat.pow_add]
    refine Nat.lt_of_lt_of_le (Nat.lt_log2_self (n := num / den)) ?_
    exact Nat.pow_le_pow_right (by decide) (by unfold spacingLog2; omega)
  omega

/-- A multiple of `2 ^ s` by what fits into the significant bits, or just does not, has no bits
besides them. -/
theorem two_pow_log2_dvd {q : Nat} (s : Nat) (h : q ≤ 2 ^ significantBits) :
    2 ^ ((q * 2 ^ s).log2 + 1 - significantBits) ∣ q * 2 ^ s := by
  rcases Nat.eq_zero_or_pos q with rfl | hq
  · simp
  · rcases Nat.lt_or_eq_of_le h with hlt | rfl
    · have hne : q * 2 ^ s ≠ 0 :=
        Nat.mul_ne_zero (by omega) (Nat.pos_iff_ne_zero.1 (Nat.two_pow_pos s))
      have hlog : (q * 2 ^ s).log2 < significantBits + s := by
        rw [Nat.log2_lt hne, Nat.pow_add]
        exact Nat.mul_lt_mul_of_pos_right hlt (Nat.two_pow_pos s)
      exact Nat.dvd_trans (Nat.pow_dvd_pow 2 (by omega)) (Nat.dvd_mul_left _ _)
    · rw [← Nat.pow_add, Nat.log2_two_pow]
      exact Nat.pow_dvd_pow 2 (by unfold significantBits; omega)

/-- **Rounding is sound**: below the limit, a rounded fraction is representable. -/
theorem representable_roundUnits {num den : Nat} (h : roundUnits num den < unitsLimit) :
    Representable (roundUnits num den) :=
  ⟨h, two_pow_log2_dvd _ (roundDiv_spacing_le num den)⟩

/-- The limit is positive. -/
theorem unitsLimit_pos : 0 < unitsLimit := by
  unfold unitsLimit
  exact Nat.two_pow_pos _

/-- Zero is representable. -/
theorem representable_zero : Representable 0 :=
  ⟨unitsLimit_pos, Nat.dvd_zero _⟩

/-- A whole quotient is not rounded. -/
theorem roundDiv_mul_right (q : Nat) {d : Nat} (hd : 0 < d) : roundDiv (q * d) d = q := by
  simp [roundDiv, Nat.mul_div_cancel q hd, hd]

/-- **Representable counts are not rounded.** -/
theorem roundUnits_mul_right {n k : Nat} (hk : 0 < k) (hn : Representable n) :
    roundUnits (n * k) k = n := by
  obtain ⟨q, hq⟩ := hn.2
  have hs : spacingLog2 (n * k) k = n.log2 + 1 - significantBits := by
    rw [spacingLog2, Nat.mul_div_cancel n hk]
  have hnum : n * k = q * (k * 2 ^ (n.log2 + 1 - significantBits)) := by
    rw [← Nat.mul_assoc, Nat.mul_right_comm, Nat.mul_comm q, ← hq]
  rw [roundUnits, hs, hnum, roundDiv_mul_right q (Nat.mul_pos hk (Nat.two_pow_pos _)),
    Nat.mul_comm, ← hq]

namespace Binary64

/-- The number nearest to the fraction `num / den` of a unit, with the given sign: ties go to
the even neighbour, and what rounds to the limit or beyond is infinite. -/
def ofRatio (negative : Bool) (num den : Nat) : Binary64 :=
  if h : roundUnits num den < unitsLimit then
    finite negative (roundUnits num den) (representable_roundUnits h)
  else
    inf negative

/-- A fraction that is a representable count of units is that number. -/
theorem ofRatio_mul_right (negative : Bool) {n k : Nat} (hk : 0 < k) (hn : Representable n) :
    ofRatio negative (n * k) k = finite negative n hn := by
  have h := roundUnits_mul_right hk hn
  simp only [ofRatio, h, hn.1, dite_true]

/-- The zero of the given sign. -/
def zero (negative : Bool) : Binary64 :=
  finite negative 0 representable_zero

/-- The number nearest to the integer `n`; zero is positive. -/
def ofInt (n : Int) : Binary64 :=
  ofRatio (decide (n < 0)) (n.natAbs * unitsPerOne) 1

/-- The number nearest to `mantissa · 2 ^ exponent`. -/
def ofDyadic (mantissa exponent : Int) : Binary64 :=
  let negative := decide (mantissa < 0)
  let shift := exponent + unitPlaces
  if 0 ≤ shift then ofRatio negative (mantissa.natAbs * 2 ^ shift.toNat) 1
  else ofRatio negative mantissa.natAbs (2 ^ (-shift).toNat)

/-- The count of units of a finite number, without its sign. -/
def units : Binary64 → Nat
  | finite _ n _ => n
  | _ => 0

/-- Whether a number is finite. -/
def isFinite : Binary64 → Bool
  | finite _ _ _ => true
  | _ => false

/-- Whether a value is NaN. -/
def isNaN : Binary64 → Bool
  | nan => true
  | _ => false

end Binary64

end Reckoner
