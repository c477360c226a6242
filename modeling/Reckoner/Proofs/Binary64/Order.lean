import Mathlib
import Reckoner.Binary64.Arithmetic

/-!
# The Order of Binary Floating-Point Numbers

The order compares ranks, so that it is total on all values but NaN, which stands nowhere in it.
Ranks tell all numbers apart but the two zeros. A change of sign turns the order around.

Main results:

* `Binary64.le_refl`, `le_trans`, `le_of_lt`, `le_of_not_lt`: the order without NaN;
* `Binary64.eq_or_zeros_of_le_of_le`: what is in order both ways is equal, or two zeros;
* `Binary64.neg_le_neg`, `neg_lt_neg`, `max_eq_neg_min_neg`: the order turned around.
-/

namespace Reckoner

namespace Binary64

/-! ### Ranks -/

/-- Every value but NaN has a rank. -/
theorem exists_rank?_eq_some {x : Binary64} (h : x.isNaN = false) : ∃ i, x.rank? = some i := by
  cases x with
  | nan => cases h
  | inf s => exact ⟨_, rfl⟩
  | finite s n hn => exact ⟨_, rfl⟩

/-- A finite value is not NaN. -/
theorem isNaN_of_isFinite {x : Binary64} (h : x.isFinite) : x.isNaN = false := by
  cases x with
  | nan | inf s => cases h
  | finite s n hn => rfl

/-- What has a rank is not NaN. -/
theorem isNaN_of_rank? {x : Binary64} {i : Int} (h : x.rank? = some i) : x.isNaN = false := by
  cases x with
  | nan => cases h
  | inf s => rfl
  | finite s n hn => rfl

/-- The order is that of the ranks, and holds for nothing without a rank. -/
theorem le_iff {x y : Binary64} :
    x.le y ↔ ∃ i j, x.rank? = some i ∧ y.rank? = some j ∧ i ≤ j := by
  rw [le]
  cases x.rank? <;> cases y.rank? <;> simp

/-- The strict order is that of the ranks, too. -/
theorem lt_iff {x y : Binary64} :
    x.lt y ↔ ∃ i j, x.rank? = some i ∧ y.rank? = some j ∧ i < j := by
  rw [lt]
  cases x.rank? <;> cases y.rank? <;> simp

/-- A sign does not change how many units there are. -/
@[simp] theorem natAbs_signedUnits (s : Bool) (n : Nat) : (signedUnits s n).natAbs = n := by
  cases s <;> simp [signedUnits]

/-- The other sign makes the opposite number of units. -/
theorem signedUnits_not (s : Bool) (n : Nat) : signedUnits (!s) n = -signedUnits s n := by
  cases s <;> simp [signedUnits]

/-- Signed units tell sign and number apart, but for the sign of zero. -/
theorem signedUnits_inj {s t : Bool} {m n : Nat} :
    signedUnits s m = signedUnits t n ↔ m = n ∧ (s = t ∨ m = 0) := by
  cases s <;> cases t <;> simp [signedUnits] <;> omega

/-- No rank is beyond those of the infinities. -/
theorem natAbs_le_of_rank? {x : Binary64} {i : Int} (h : x.rank? = some i) :
    i.natAbs ≤ unitsLimit := by
  cases x with
  | nan => cases h
  | inf s =>
    rw [← Option.some.inj h, natAbs_signedUnits]
  | finite s n hn =>
    rw [← Option.some.inj h, natAbs_signedUnits]
    exact Nat.le_of_lt hn.1

/-- **Ranks tell all numbers apart but the two zeros.** -/
theorem eq_or_zeros_of_rank?_eq {x y : Binary64} (hx : x.isNaN = false) (h : x.rank? = y.rank?) :
    x = y ∨ ∃ s, x = zero s ∧ y = zero (!s) := by
  cases x with
  | nan => cases hx
  | inf s =>
    cases y with
    | nan => cases h
    | inf t =>
      obtain ⟨-, rfl | hzero⟩ := signedUnits_inj.1 (Option.some.inj h)
      · exact .inl rfl
      · exact absurd hzero (Nat.pos_iff_ne_zero.1 unitsLimit_pos)
    | finite t n hn => exact absurd (signedUnits_inj.1 (Option.some.inj h)).1 (Nat.ne_of_gt hn.1)
  | finite s m hm =>
    cases y with
    | nan => cases h
    | inf t => exact absurd (signedUnits_inj.1 (Option.some.inj h)).1 (Nat.ne_of_lt hm.1)
    | finite t n hn =>
      obtain ⟨rfl, hsign⟩ := signedUnits_inj.1 (Option.some.inj h)
      by_cases hst : s = t
      · exact .inl (by rw [hst])
      · obtain rfl := hsign.resolve_left hst
        exact .inr ⟨s, rfl, by rw [Bool.eq_not_of_ne (Ne.symm hst)]; rfl⟩

/-! ### The order without NaN -/

/-- The order is reflexive on all values but NaN. -/
theorem le_refl {x : Binary64} (h : x.isNaN = false) : x.le x := by
  obtain ⟨i, hi⟩ := exists_rank?_eq_some h
  exact le_iff.2 ⟨i, i, hi, hi, Int.le_refl i⟩

/-- The order is transitive. -/
theorem le_trans {x y z : Binary64} (hxy : x.le y) (hyz : y.le z) : x.le z := by
  obtain ⟨i, j, hi, hj, hij⟩ := le_iff.1 hxy
  obtain ⟨j', k, hj', hk, hjk⟩ := le_iff.1 hyz
  obtain rfl := Option.some.inj (hj.symm.trans hj')
  exact le_iff.2 ⟨i, k, hi, hk, Int.le_trans hij hjk⟩

/-- What is less is less or equal. -/
theorem le_of_lt {x y : Binary64} (h : x.lt y) : x.le y := by
  obtain ⟨i, j, hi, hj, hij⟩ := lt_iff.1 h
  exact le_iff.2 ⟨i, j, hi, hj, Int.le_of_lt hij⟩

/-- The order is total on all values but NaN. -/
theorem le_of_not_lt {x y : Binary64} (hx : x.isNaN = false) (hy : y.isNaN = false)
    (h : ¬x.lt y) : y.le x := by
  obtain ⟨i, hi⟩ := exists_rank?_eq_some hx
  obtain ⟨j, hj⟩ := exists_rank?_eq_some hy
  refine le_iff.2 ⟨j, i, hj, hi, Int.not_lt.1 fun hij => h ?_⟩
  exact lt_iff.2 ⟨i, j, hi, hj, hij⟩

/-- What is in order both ways is equal, or two zeros. -/
theorem eq_or_zeros_of_le_of_le {x y : Binary64} (hxy : x.le y) (hyx : y.le x) :
    x = y ∨ ∃ s, x = zero s ∧ y = zero (!s) := by
  obtain ⟨i, j, hi, hj, hij⟩ := le_iff.1 hxy
  obtain ⟨j', i', hj', hi', hji⟩ := le_iff.1 hyx
  obtain rfl := Option.some.inj (hi.symm.trans hi')
  obtain rfl := Option.some.inj (hj.symm.trans hj')
  obtain rfl := Int.le_antisymm hij hji
  exact eq_or_zeros_of_rank?_eq (isNaN_of_rank? hi) (hi.trans hj.symm)

/-- Nothing is above infinity. -/
theorem le_inf {x : Binary64} (h : x.isNaN = false) : x.le (inf false) := by
  obtain ⟨i, hi⟩ := exists_rank?_eq_some h
  refine le_iff.2 ⟨i, unitsLimit, hi, rfl, ?_⟩
  have hle := natAbs_le_of_rank? hi
  omega

/-! ### The order turned around -/

/-- Two changes of sign are none, on every value. -/
@[simp] theorem neg_neg (x : Binary64) : x.neg.neg = x := by
  cases x <;> simp [neg]

/-- A change of sign keeps NaN apart from all others. -/
@[simp] theorem isNaN_neg (x : Binary64) : x.neg.isNaN = x.isNaN := by
  cases x <;> rfl

/-- A change of sign changes the sign of the rank. -/
theorem rank?_neg (x : Binary64) : x.neg.rank? = x.rank?.map (- ·) := by
  cases x <;> simp [neg, rank?, signedUnits_not]

/-- A change of sign turns the order around. -/
theorem neg_le_neg (x y : Binary64) : x.neg.le y.neg = y.le x := by
  rw [le, le, rank?_neg, rank?_neg]
  cases x.rank? <;> cases y.rank? <;> simp

/-- A change of sign turns the strict order around. -/
theorem neg_lt_neg (x y : Binary64) : x.neg.lt y.neg = y.lt x := by
  rw [lt, lt, rank?_neg, rank?_neg]
  cases x.rank? <;> cases y.rank? <;> simp

/-- **The larger value is the smaller one with the signs reversed.** -/
theorem max_eq_neg_min_neg (x y : Binary64) : max x y = (min x.neg y.neg).neg := by
  rw [max, min, isNaN_neg, neg_lt_neg]
  split_ifs <;> simp

end Binary64

end Reckoner
