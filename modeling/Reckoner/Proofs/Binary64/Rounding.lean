import Mathlib
import Reckoner.Proofs.Binary64.Order

/-!
# Rounding of Sums

A sum of two numbers is computed exactly and then rounded, so it is exact where the sum has no bits
beyond the significant ones. What is rounded never falls below its leading bit.

Main definition: `Binary64.signed`, the signed count of units that a finite number stands for.

Main results:

* `Representable.of_dvd`: a count that is no larger than a representable one and lies on its grid;
* `representable_mul_two_pow`: up to `2⁵³` times a power of two that is a part of one;
* `two_pow_log2_le_roundUnits`: rounding keeps the leading bit;
* `Binary64.signed_add`: a sum that is representable is exact.
-/

namespace Reckoner

-- Powers are those of core, whatever other instances are in scope.
attribute [local instance (100000)] instPowNat

/-! ### Representable counts -/

/-- Some bits of a representable count, none below its last significant place. -/
theorem Representable.of_dvd {m n : Nat} (hn : Representable n) (hle : m ≤ n)
    (hdvd : 2 ^ (n.log2 + 1 - significantBits) ∣ m) : Representable m := by
  refine ⟨Nat.lt_of_le_of_lt hle hn.1, Nat.dvd_trans (Nat.pow_dvd_pow 2 ?_) hdvd⟩
  have hlog : m.log2 ≤ n.log2 := by
    rw [Nat.log2_eq_log_two, Nat.log2_eq_log_two]
    exact Nat.log_mono_right hle
  omega

/-- As many ones, or halves, or other parts of one, as the significant bits can count. -/
theorem representable_mul_two_pow {q place : Nat} (hq : q ≤ 2 ^ significantBits)
    (hplace : place ≤ unitPlaces) : Representable (q * 2 ^ place) := by
  refine ⟨?_, two_pow_log2_dvd place hq⟩
  calc q * 2 ^ place ≤ 2 ^ significantBits * 2 ^ place := Nat.mul_le_mul_right _ hq
    _ = 2 ^ (significantBits + place) := by rw [Nat.pow_add]
    _ < unitsLimit := Nat.pow_lt_pow_right (by decide) (by unfold significantBits; omega)

/-- Whole numbers up to two to the number of significant bits are representable. -/
theorem representable_mul_unitsPerOne {q : Nat} (hq : q ≤ 2 ^ significantBits) :
    Representable (q * unitsPerOne) :=
  representable_mul_two_pow hq (Nat.le_refl unitPlaces)

/-- What has significant bits behind the point is small. -/
theorem Representable.lt_of_mod_ne_zero {n : Nat} (hn : Representable n) (h : n % unitsPerOne ≠ 0) :
    n < 2 ^ significantBits * unitsPerOne := by
  have hplaces : n.log2 + 1 - significantBits < unitPlaces := by
    by_contra hge
    refine h (Nat.mod_eq_zero_of_dvd (Nat.dvd_trans (Nat.pow_dvd_pow 2 ?_) hn.2))
    omega
  rw [unitsPerOne, ← Nat.pow_add]
  exact Nat.lt_of_lt_of_le Nat.lt_log2_self (Nat.pow_le_pow_right (by decide) (by omega))

/-! ### Rounding -/

/-- A quotient is not rounded to below itself. -/
theorem div_le_roundDiv (num den : Nat) : num / den ≤ roundDiv num den := by
  unfold roundDiv
  dsimp only
  split_ifs <;> omega

/-- **Rounding keeps the leading bit**: it lies on the grid that a fraction is rounded to. -/
theorem two_pow_log2_le_roundUnits {num den : Nat} (h : num / den ≠ 0) :
    2 ^ (num / den).log2 ≤ roundUnits num den := by
  have hspacing : spacingLog2 num den ≤ (num / den).log2 := by
    simp only [spacingLog2, significantBits]
    omega
  have hlead : 2 ^ ((num / den).log2 - spacingLog2 num den) ≤
      roundDiv num (den * 2 ^ spacingLog2 num den) := by
    refine le_trans ?_ (div_le_roundDiv _ _)
    rw [← Nat.div_div_eq_div_mul, Nat.le_div_iff_mul_le (Nat.two_pow_pos _), ← Nat.pow_add,
      Nat.sub_add_cancel hspacing]
    exact Nat.log2_self_le h
  calc 2 ^ (num / den).log2 =
      2 ^ ((num / den).log2 - spacingLog2 num den) * 2 ^ spacingLog2 num den := by
        rw [← Nat.pow_add, Nat.sub_add_cancel hspacing]
    _ ≤ roundUnits num den := Nat.mul_le_mul_right _ hlead

namespace Binary64

/-! ### Signed counts of units -/

/-- The signed count of units that a finite number stands for. -/
def signed : Binary64 → Int
  | finite s n _ => signedUnits s n
  | _ => 0

/-- The value of a finite number, in units, has its sign and its number of units. -/
@[simp] theorem signed_finite (s : Bool) (n : Nat) (h : Representable n) :
    (finite s n h).signed = signedUnits s n := rfl

/-- Both zeros have the value zero. -/
@[simp] theorem signed_zero (s : Bool) : (zero s).signed = 0 := by
  cases s <;> rfl

/-- A change of sign changes the sign of the value. -/
theorem signed_neg (x : Binary64) : x.neg.signed = -x.signed := by
  cases x with
  | nan => rfl
  | inf s => rfl
  | finite s n h => cases s <;> simp [neg, signedUnits]

/-- A representable count of units is not rounded. -/
theorem ofRatio_one (negative : Bool) {n : Nat} (hn : Representable n) :
    ofRatio negative n 1 = finite negative n hn := by
  have hexact := ofRatio_mul_right negative Nat.one_pos hn
  rwa [Nat.mul_one] at hexact

/-- An integer as a count of units without a sign, and its sign. -/
theorem signedUnits_natAbs (i : Int) : signedUnits (decide (i < 0)) i.natAbs = i := by
  unfold signedUnits
  split_ifs with h <;> rw [decide_eq_true_eq] at h <;> omega

/-- The units of a value are representable. -/
theorem representable_signed (x : Binary64) : Representable x.signed.natAbs := by
  cases x with
  | nan | inf s => exact representable_zero
  | finite s n h => rwa [signed_finite, natAbs_signedUnits]

/-- Finite numbers are ordered as their values are. -/
theorem le_iff_signed_le {x y : Binary64} (hx : x.isFinite) (hy : y.isFinite) :
    x.le y ↔ x.signed ≤ y.signed := by
  cases x with
  | nan | inf s => cases hx
  | finite s m hm =>
    cases y with
    | nan | inf t => cases hy
    | finite t n hn => simp [le, rank?]

/-- A sum is computed exactly and rounded once. -/
theorem add_eq_ofRatio {x y : Binary64} (hx : x.isFinite) (hy : y.isFinite)
    (hsum : x.signed + y.signed ≠ 0) :
    x.add y = ofRatio (decide (x.signed + y.signed < 0)) (x.signed + y.signed).natAbs 1 := by
  cases x with
  | nan | inf s => cases hx
  | finite s m hm =>
    cases y with
    | nan | inf t => cases hy
    | finite t n hn =>
      rw [signed_finite, signed_finite] at hsum ⊢
      rw [add, if_neg hsum]

/-- **A sum that is representable is exact.** -/
theorem signed_add {x y : Binary64} (hx : x.isFinite) (hy : y.isFinite)
    (h : Representable (x.signed + y.signed).natAbs) :
    (x.add y).isFinite ∧ (x.add y).signed = x.signed + y.signed := by
  by_cases hsum : x.signed + y.signed = 0
  · cases x with
    | nan | inf s => cases hx
    | finite s m hm =>
      cases y with
      | nan | inf t => cases hy
      | finite t n hn =>
        rw [hsum]
        rw [signed_finite, signed_finite] at hsum
        rw [add, if_pos hsum]
        exact ⟨rfl, signed_zero _⟩
  · rw [add_eq_ofRatio hx hy hsum, ofRatio_one _ h]
    exact ⟨rfl, signedUnits_natAbs _⟩

end Binary64

end Reckoner
