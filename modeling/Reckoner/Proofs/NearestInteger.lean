import Mathlib
import Reckoner.Proofs.Binary64.Rounding
import Reckoner.Proofs.Evaluation.Totality

/-!
# The Nearest Integer

`round` compares the distance to the integer below with one half. The distance is a difference of
two numbers, and it is exact but for negative numbers close to zero, where it is rounded. That does
no harm: the exact distance is above one half then, and rounding, which keeps the leading bit, does
not move it below. The integer below and the one above are exact, since a number that is no integer
has at least one of its 53 bits behind the point.

Main definition: `Binary64.toRat`, the rational number that a finite number stands for.

Main results:

* `Binary64.signed_floor`: the integer below is exact;
* `Binary64.half_le_sub_floor_iff`: the comparison with one half is that of the exact distance;
* `Binary64.toRat_round`: `round` is exact;
* `Function.round_is_nearest`: it is the nearest integer, halves going up, and never fails.
-/

namespace Reckoner

-- Powers are those of core, whatever other instances are in scope.
attribute [local instance (100000)] instPowNat

/-- One has units. -/
theorem unitsPerOne_pos : 0 < unitsPerOne :=
  Nat.two_pow_pos unitPlaces

/-! ### Rounding half up -/

/-- A fraction is rounded half up by its remainder. -/
theorem floor_div_add_half (i : Int) {n : Int} (hn : 0 < n) :
    ⌊(i / n + 1 / 2 : ℚ)⌋ = if n ≤ 2 * (i % n) then i / n + 1 else i / n := by
  have hnq : (0 : ℚ) < n := Int.cast_pos.2 hn
  have hdecompose : (i : ℚ) = n * (i / n : Int) + (i % n : Int) := by
    exact_mod_cast (Int.mul_ediv_add_emod i n).symm
  have hquotient : (i / n : ℚ) = (i / n : Int) + (i % n : Int) / n := by
    rw [hdecompose]
    field_simp
  have hnonneg : (0 : ℚ) ≤ (i % n : Int) / n :=
    div_nonneg (Int.cast_nonneg (Int.emod_nonneg i hn.ne')) hnq.le
  have hlt : ((i % n : Int) / n : ℚ) < 1 := by
    rw [div_lt_one hnq]
    exact Int.cast_lt.2 (Int.emod_lt_of_pos i hn)
  have hhalf : (1 / 2 : ℚ) ≤ (i % n : Int) / n ↔ n ≤ 2 * (i % n) := by
    rw [div_le_div_iff₀ two_pos hnq, one_mul, mul_comm]
    exact_mod_cast Iff.rfl
  rw [hquotient, Int.floor_eq_iff]
  split_ifs with h
  · have hge := hhalf.2 h
    push_cast
    constructor <;> linarith
  · have hless := not_le.1 (mt hhalf.1 h)
    constructor <;> linarith

/-- Of two integers that are as near, the greater one is meant. -/
theorem le_round_of_tie {q : ℚ} {k : ℤ} (htie : |q - k| = |q - round q|) :
    k ≤ round q := by
  by_contra hlt
  have hbelow : (round q : ℚ) + 1 ≤ k := by exact_mod_cast not_le.1 hlt
  have habove : q + 1 / 2 < round q + 1 := by
    rw [round_eq]
    exact Int.lt_floor_add_one _
  have hnear := abs_sub_round q
  have hfar := neg_abs_le (q - k)
  linarith

namespace Binary64

/-! ### Counts of units and whole numbers -/

/-- A factor of the units is a factor of the signed units. -/
theorem signedUnits_mul (s : Bool) (m n : Nat) : signedUnits s (m * n) = signedUnits s m * n := by
  cases s <;> simp [signedUnits]

/-- A quotient rounded down: a negative one that is no integer goes to the next larger count. -/
theorem signedUnits_ediv (s : Bool) (m : Nat) {n : Nat} (hn : 0 < n) :
    signedUnits s m / n = signedUnits s (if s && m % n != 0 then m / n + 1 else m / n) := by
  cases s with
  | false => simp [signedUnits]
  | true =>
    have hdvd : (n : Int) ∣ m ↔ m % n = 0 := by
      rw [Int.natCast_dvd_natCast, Nat.dvd_iff_mod_eq_zero]
    have hsign : (n : Int).sign = 1 := Int.sign_natCast_of_ne_zero (Nat.pos_iff_ne_zero.1 hn)
    simp only [signedUnits, if_true, Int.neg_ediv, hdvd, hsign]
    by_cases hzero : m % n = 0 <;> simp [hzero]
    omega

/-- A remainder below one half is no larger than what it is left of. -/
theorem natAbs_emod_le {i n : Int} (hn : 0 < n) (hlt : 2 * (i % n) < n) :
    (i % n).natAbs ≤ i.natAbs := by
  have hdecompose := Int.mul_ediv_add_emod i n
  have hnonneg := Int.emod_nonneg i hn.ne'
  rcases lt_or_ge (i / n) 0 with hneg | hpos
  · have hle : n * (i / n) ≤ n * -1 := Int.mul_le_mul_of_nonneg_left (by omega) hn.le
    omega
  · have hle : 0 ≤ n * (i / n) := Int.mul_nonneg hn.le hpos
    omega

/-- What is behind the point of a number, below one half, is exact: it has no more bits than the
number and none below its last place. -/
theorem representable_emod {i : Int} (hi : Representable i.natAbs)
    (hlt : 2 * (i % unitsPerOne) < unitsPerOne) : Representable (i % unitsPerOne).natAbs := by
  refine hi.of_dvd (natAbs_emod_le (Int.natCast_pos.2 unitsPerOne_pos) hlt) ?_
  rw [← Int.natCast_dvd]
  have hgrid := Int.natCast_dvd.2 hi.2
  generalize i.natAbs.log2 + 1 - significantBits = place at hgrid ⊢
  rcases Nat.le_total place unitPlaces with hle | hge
  · -- The last place is behind the point.
    have hone : 2 ^ place ∣ unitsPerOne := Nat.pow_dvd_pow 2 hle
    exact (EuclideanDomain.dvd_mod_iff (Int.natCast_dvd_natCast.2 hone)).2 hgrid
  · -- The last place is before the point, and the number is an integer.
    have hone : unitsPerOne ∣ 2 ^ place := Nat.pow_dvd_pow 2 hge
    rw [Int.emod_eq_zero_of_dvd (Int.dvd_trans (Int.natCast_dvd_natCast.2 hone) hgrid)]
    exact Int.dvd_zero _

/-- The integer above a number that is none fits into the significant bits. -/
theorem natAbs_ediv_add_one_le {i : Int} (hi : Representable i.natAbs) (h : i % unitsPerOne ≠ 0) :
    (i / unitsPerOne + 1).natAbs ≤ 2 ^ significantBits := by
  have hpos : (0 : Int) < unitsPerOne := Int.natCast_pos.2 unitsPerOne_pos
  have hmod : i.natAbs % unitsPerOne ≠ 0 := by
    rwa [Ne, ← Nat.dvd_iff_mod_eq_zero, ← Int.natCast_dvd, Int.dvd_iff_emod_eq_zero]
  have hlt := Int.ofNat_lt.2 (hi.lt_of_mod_ne_zero hmod)
  rw [Int.natCast_mul] at hlt
  generalize 2 ^ significantBits = bound at hlt ⊢
  have hlower : -(bound : Int) ≤ i / unitsPerOne := by
    rw [Int.le_ediv_iff_mul_le hpos, Int.neg_mul]
    omega
  have hupper : i / unitsPerOne < bound := by
    rw [Int.ediv_lt_iff_lt_mul hpos]
    omega
  omega

/-! ### The integer below -/

/-- **The integer below is exact.** -/
theorem signed_floor {x : Binary64} (hx : x.isFinite) :
    x.floor.isFinite ∧ x.floor.signed = x.signed / unitsPerOne * unitsPerOne := by
  cases x with
  | nan | inf s => cases hx
  | finite s n hn =>
    have hwhole : Representable
        ((if s && n % unitsPerOne != 0 then n / unitsPerOne + 1 else n / unitsPerOne) *
          unitsPerOne) := by
      by_cases hinteger : n % unitsPerOne = 0
      · have hn' : n / unitsPerOne * unitsPerOne = n :=
          Nat.div_mul_cancel (Nat.dvd_of_mod_eq_zero hinteger)
        simpa [hinteger, hn'] using hn
      · have hlt : n / unitsPerOne < 2 ^ significantBits :=
          (Nat.div_lt_iff_lt_mul unitsPerOne_pos).2 (hn.lt_of_mod_ne_zero hinteger)
        refine representable_mul_unitsPerOne ?_
        split_ifs <;> omega
    rw [floor, ofRatio_one s hwhole, signed_finite, signed_finite, signedUnits_mul,
      signedUnits_ediv s n unitsPerOne_pos]
    exact ⟨rfl, rfl⟩

/-! ### The distance to it -/

/-- One half, counted in units. -/
def unitsPerHalf : Nat := 2 ^ (unitPlaces - 1)

/-- Two halves make up one. -/
theorem unitsPerHalf_mul_two : unitsPerHalf * 2 = unitsPerOne := by
  rw [unitsPerHalf, unitsPerOne]
  exact Nat.two_pow_pred_mul_two (by decide)

/-- One half is finite, and has half of the units of one. -/
theorem signed_half : half.isFinite ∧ half.signed = unitsPerHalf := by
  have hrepresentable : Representable (1 * 2 ^ (unitPlaces - 1)) :=
    representable_mul_two_pow (Nat.two_pow_pos _) (Nat.sub_le _ _)
  rw [Nat.one_mul, ← unitsPerHalf] at hrepresentable
  rw [half, ← unitsPerHalf_mul_two, ofRatio_mul_right false two_pos hrepresentable]
  exact ⟨rfl, rfl⟩

/-- **Rounding does not move a distance below one half.** -/
theorem half_le_ofRatio {n : Nat} (h : unitsPerHalf ≤ n) : half.le (ofRatio false n 1) := by
  obtain ⟨hfinite, hhalf⟩ := signed_half
  rw [ofRatio]
  split_ifs with hlimit
  · have hne : n ≠ 0 := Nat.pos_iff_ne_zero.1 ((Nat.two_pow_pos _).trans_le h)
    have hround : unitsPerHalf ≤ roundUnits n 1 :=
      calc unitsPerHalf ≤ 2 ^ n.log2 := Nat.pow_le_pow_right (by decide) ((Nat.le_log2 hne).2 h)
        _ = 2 ^ (n / 1).log2 := by rw [Nat.div_one]
        _ ≤ roundUnits n 1 := two_pow_log2_le_roundUnits (by rwa [Nat.div_one])
    rw [le_iff_signed_le hfinite rfl, hhalf]
    exact Int.ofNat_le.2 hround
  · exact le_inf (isNaN_of_isFinite hfinite)

/-- The difference is exact below one half, and otherwise one half at least. So **the comparison
with one half is that of the exact distance.** -/
theorem half_le_sub_floor_iff {x : Binary64} (hx : x.isFinite) :
    half.le (x.sub x.floor) ↔ (unitsPerOne : Int) ≤ 2 * (x.signed % unitsPerOne) := by
  obtain ⟨hfloor, hsigned⟩ := signed_floor hx
  have hneg : x.floor.neg.isFinite := by rwa [isFinite_neg]
  have hpos : (0 : Int) < unitsPerOne := Int.natCast_pos.2 unitsPerOne_pos
  have hnonneg := Int.emod_nonneg x.signed hpos.ne'
  have hsum : x.signed + x.floor.neg.signed = x.signed % unitsPerOne := by
    have hdecompose := Int.mul_ediv_add_emod x.signed unitsPerOne
    rw [signed_neg, hsigned, Int.mul_comm]
    omega
  have hhalf := unitsPerHalf_mul_two
  rw [sub]
  rcases lt_or_ge (2 * (x.signed % unitsPerOne)) unitsPerOne with hlt | hge
  · obtain ⟨hfinite, hexact⟩ := signed_add hx hneg
      (hsum ▸ representable_emod (representable_signed x) hlt)
    rw [le_iff_signed_le signed_half.1 hfinite, signed_half.2, hexact, hsum]
    omega
  · refine iff_of_true ?_ hge
    rw [add_eq_ofRatio hx hneg (by omega), hsum, decide_eq_false (by omega)]
    exact half_le_ofRatio (by omega)

/-! ### The nearest integer -/

/-- One is finite, and has the units of one. -/
theorem signed_ofInt_one : (ofInt 1).isFinite ∧ (ofInt 1).signed = unitsPerOne := by
  have hrepresentable := representable_mul_unitsPerOne (Nat.two_pow_pos significantBits)
  rw [Nat.succ_eq_add_one, Nat.zero_add, Nat.one_mul] at hrepresentable
  have hone : ofInt 1 = ofRatio false unitsPerOne 1 := by
    rw [ofInt, Int.natAbs_one, Nat.one_mul]
    rfl
  rw [hone, ofRatio_one false hrepresentable]
  exact ⟨rfl, rfl⟩

/-- **`round` is exact**, in units. -/
theorem signed_round {x : Binary64} (hx : x.isFinite) :
    x.round.isFinite ∧ x.round.signed =
      (if (unitsPerOne : Int) ≤ 2 * (x.signed % unitsPerOne) then x.signed / unitsPerOne + 1
        else x.signed / unitsPerOne) * unitsPerOne := by
  obtain ⟨hfloor, hsigned⟩ := signed_floor hx
  rw [round]
  by_cases hhalf : (unitsPerOne : Int) ≤ 2 * (x.signed % unitsPerOne)
  · have hpos := Int.natCast_pos.2 unitsPerOne_pos
    have hsum : x.floor.signed + (ofInt 1).signed = (x.signed / unitsPerOne + 1) * unitsPerOne := by
      rw [hsigned, signed_ofInt_one.2, Int.add_mul, Int.one_mul]
    have hrepresentable : Representable (x.floor.signed + (ofInt 1).signed).natAbs := by
      rw [hsum, Int.natAbs_mul, Int.natAbs_natCast]
      refine representable_mul_unitsPerOne (natAbs_ediv_add_one_le (representable_signed x) ?_)
      omega
    rw [if_pos ((half_le_sub_floor_iff hx).2 hhalf), if_pos hhalf, ← hsum]
    exact signed_add hfloor signed_ofInt_one.1 hrepresentable
  · rw [if_neg (mt (half_le_sub_floor_iff hx).1 hhalf), if_neg hhalf]
    exact ⟨hfloor, hsigned⟩

/-- The rational number that a finite number stands for. -/
def toRat (x : Binary64) : ℚ :=
  x.signed / unitsPerOne

/-- **`round` is exact**: it adds one half and goes to the integer below. -/
theorem toRat_round {x : Binary64} (hx : x.isFinite) : x.round.toRat = ⌊x.toRat + 1 / 2⌋ := by
  have hpos := Int.natCast_pos.2 unitsPerOne_pos
  have hne : (unitsPerOne : ℚ) ≠ 0 := Nat.cast_ne_zero.2 (Nat.pos_iff_ne_zero.1 unitsPerOne_pos)
  have hfloor := floor_div_add_half x.signed hpos
  rw [Int.cast_natCast] at hfloor
  rw [toRat, toRat, hfloor, (signed_round hx).2, Int.cast_mul, Int.cast_natCast,
    mul_div_cancel_right₀ _ hne]

end Binary64

/-! ### The function -/

namespace Function

/-- Rounding refuses no number. -/
theorem isTotal_round : IsTotal round := by
  intro xs haccepts hfinite
  obtain ⟨x, rfl⟩ := List.length_eq_one_iff.1 haccepts
  exact ⟨x.round, rfl, (Binary64.signed_round (hfinite x List.mem_cons_self)).1⟩

/-- **`round` yields the nearest integer, halves going up**, at every finite number: the integer
below what is one half more. No integer is nearer, and none that is as near is greater. So a call
with one argument fails only if the argument does. -/
theorem round_is_nearest :
    (∀ x : Binary64, x.isFinite → ∃ r, round.apply [x] = .ok r ∧ r.isFinite ∧
      r.toRat = ⌊x.toRat + 1 / 2⌋ ∧
      ∀ k : ℤ, |x.toRat - r.toRat| ≤ |x.toRat - k| ∧
        (|x.toRat - k| = |x.toRat - r.toRat| → k ≤ r.toRat)) ∧
    ∀ (e : Expr) (err : FormulaError),
      (Expr.call round [e]).eval = .error err ↔ e.eval = .error err := by
  constructor
  · intro x hx
    have hround := Binary64.toRat_round hx
    refine ⟨x.round, rfl, (Binary64.signed_round hx).1, hround, fun k => ?_⟩
    rw [hround, ← round_eq]
    exact ⟨round_le x.toRat k, fun htie => Int.cast_le.2 (le_round_of_tie htie)⟩
  · intro e err
    rw [Expr.eval_call_eq_error_iff isTotal_round]
    constructor
    · rintro (⟨before, s, after, hsplit, hs, -⟩ | ⟨-, hcount, -⟩)
      · cases before with
        | nil =>
          obtain ⟨rfl, rfl⟩ := List.cons.inj hsplit
          exact hs
        | cons t before => simp at hsplit
      · exact absurd rfl hcount
    · intro he
      exact .inl ⟨[], e, [], rfl, he, by simp⟩

/-- The number right below one half, whose sum with one half would be rounded up to one; the
negative number closest to zero, whose distance to minus one is rounded; and a call whose argument
fails. -/
theorem round_is_nearest_below_half :
    ((Binary64.ofDyadic 9007199254740991 (-54)).isFinite ∧
      ∃ r, round.apply [.ofDyadic 9007199254740991 (-54)] = .ok r ∧ r = .zero false ∧
        r.toRat = ⌊(Binary64.ofDyadic 9007199254740991 (-54)).toRat + 1 / 2⌋) ∧
    ((Binary64.ofDyadic (-1) (-1074)).isFinite ∧
      ∃ r, round.apply [.ofDyadic (-1) (-1074)] = .ok r ∧ r = .zero false ∧
        r.toRat = ⌊(Binary64.ofDyadic (-1) (-1074)).toRat + 1 / 2⌋) ∧
    (Expr.call round [.literal .nan]).eval = .error (.domain (.notFinite .literal .nan)) := by
  have hbelow : (Binary64.ofDyadic 9007199254740991 (-54)).isFinite := by decide +kernel
  have hnegative : (Binary64.ofDyadic (-1) (-1074)).isFinite := by decide +kernel
  obtain ⟨r, hr, -, hrat, -⟩ := round_is_nearest.1 _ hbelow
  obtain ⟨s, hs, -, hsat, -⟩ := round_is_nearest.1 _ hnegative
  have hrvalue : round.apply [.ofDyadic 9007199254740991 (-54)] = .ok (.zero false) := by
    decide +kernel
  have hsvalue : round.apply [.ofDyadic (-1) (-1074)] = .ok (.zero false) := by decide +kernel
  refine ⟨⟨hbelow, r, hr, ?_, hrat⟩, ⟨hnegative, s, hs, ?_, hsat⟩, ?_⟩
  · exact Except.ok.inj (hr.symm.trans hrvalue)
  · exact Except.ok.inj (hs.symm.trans hsvalue)
  · exact (round_is_nearest.2 _ _).2 (by decide +kernel)

end Function

end Reckoner
