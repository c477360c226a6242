import Mathlib
import Reckoner.Decimal.Reading
import Reckoner.Proofs.Binary64.Rounding

/-!
# Decimals by Their Value

The number nearest to a decimal depends on nothing but the value of the decimal, not on how many
zeros its digits end with. Rounding looks at a fraction through its quotient and through how its
remainder compares to one half, and a factor that numerator and denominator share changes neither.
The decimals that are settled by their bit length alone are no exception: their fractions round to
the same.

Main results:

* `Binary64.ofRatio_congr`: equal fractions round to the same number;
* `Binary64.ofDecimal_eq_ofRatio`: every decimal is rounded from its fraction;
* `Binary64.ofDecimal_mul_pow`: zeros at the end of the digits may be traded for powers of ten.
-/

namespace Reckoner

-- Powers are those of core, whatever other instances are in scope.
attribute [local instance (100000)] instPowNat

/-! ### Factors in common -/

section

variable (num den : Nat) {k : Nat}

/-- A factor that both sides of a fraction share does not change what it is rounded to. -/
theorem roundDiv_mul_mul (hk : 0 < k) : roundDiv (num * k) (den * k) = roundDiv num den := by
  have hdiv : num * k / (den * k) = num / den := Nat.mul_div_mul_right num den hk
  have hmod : num * k % (den * k) = num % den * k := Nat.mul_mod_mul_right k num den
  have hbelow : 2 * (num % den * k) < den * k ↔ 2 * (num % den) < den := by
    rw [← Nat.mul_assoc, Nat.mul_lt_mul_right hk]
  have habove : den * k < 2 * (num % den * k) ↔ den < 2 * (num % den) := by
    rw [← Nat.mul_assoc, Nat.mul_lt_mul_right hk]
  simp only [roundDiv, hdiv, hmod, hbelow, habove]

/-- A factor that both sides of a fraction share does not change the units that it is rounded to. -/
theorem roundUnits_mul_mul (hk : 0 < k) : roundUnits (num * k) (den * k) = roundUnits num den := by
  have hspacing : spacingLog2 (num * k) (den * k) = spacingLog2 num den := by
    rw [spacingLog2, spacingLog2, Nat.mul_div_mul_right num den hk]
  rw [roundUnits, roundUnits, hspacing, Nat.mul_right_comm, roundDiv_mul_mul num _ hk]

end

namespace Binary64

/-- **Equal fractions round to the same number.** -/
theorem ofRatio_congr (negative : Bool) {num den num' den' : Nat} (hden : 0 < den)
    (hden' : 0 < den')
    (h : num * den' = num' * den) : ofRatio negative num den = ofRatio negative num' den' := by
  have hunits : roundUnits num den = roundUnits num' den' := by
    rw [← roundUnits_mul_mul num den hden', h, Nat.mul_comm den, roundUnits_mul_mul num' den' hden]
  simp only [ofRatio, hunits]

/-! ### Outside the range -/

/-- What reaches the limit is infinite. -/
theorem ofRatio_eq_inf (negative : Bool) {num den : Nat} (hden : 0 < den)
    (h : unitsLimit * den ≤ num) : ofRatio negative num den = inf negative := by
  have hquotient : unitsLimit ≤ num / den := (Nat.le_div_iff_mul_le hden).2 h
  have hne : num / den ≠ 0 := Nat.pos_iff_ne_zero.1 (unitsLimit_pos.trans_le hquotient)
  have hlog : unitPlaces + 1024 ≤ (num / den).log2 := (Nat.le_log2 hne).2 hquotient
  have hunits : unitsLimit ≤ roundUnits num den :=
    calc 2 ^ (unitPlaces + 1024) ≤ 2 ^ (num / den).log2 := Nat.pow_le_pow_right (by decide) hlog
      _ ≤ roundUnits num den := two_pow_log2_le_roundUnits hne
  rw [ofRatio, dif_neg (Nat.not_lt.2 hunits)]

/-- What is below half a unit is zero. -/
theorem ofRatio_eq_zero (negative : Bool) {num den : Nat} (h : 2 * num < den) :
    ofRatio negative num den = zero negative := by
  have hlt : num < den := by omega
  have hspacing : spacingLog2 num den = 0 := by
    simp [spacingLog2, Nat.div_eq_of_lt hlt, significantBits]
  have hunits : roundUnits num den = 0 := by
    simp [roundUnits, hspacing, roundDiv, Nat.div_eq_of_lt hlt, Nat.mod_eq_of_lt hlt, h]
  simp only [ofRatio, hunits, unitsLimit_pos, dite_true, zero]

/-! ### Decimals -/

/-- A decimal with as many bits and zeros as this is beyond every finite number. -/
theorem unitsLimit_le_of_log2 {m k : Nat} (hm : m ≠ 0) (h : 1024 ≤ m.log2 + 3 * k) :
    unitsLimit ≤ m * 10 ^ k * unitsPerOne :=
  calc 2 ^ (unitPlaces + 1024) ≤ 2 ^ (m.log2 + 3 * k + unitPlaces) :=
        Nat.pow_le_pow_right (by decide) (by omega)
    _ = 2 ^ m.log2 * 8 ^ k * unitsPerOne := by
      rw [Nat.pow_add, Nat.pow_add, Nat.pow_mul, unitsPerOne]
    _ ≤ m * 10 ^ k * unitsPerOne := by
      refine Nat.mul_le_mul_right _ (Nat.mul_le_mul (Nat.log2_self_le hm) ?_)
      exact Nat.pow_le_pow_left (by decide) k

/-- A decimal with as few bits and as many places as this is below half a unit. -/
theorem two_mul_lt_of_log2 {m k : Nat} (h : m.log2 + unitPlaces + 2 ≤ 3 * k) :
    2 * (m * unitsPerOne) < 10 ^ k := by
  have hexponent : m.log2 + 1 + unitPlaces + 1 = m.log2 + unitPlaces + 2 := by omega
  calc 2 * (m * unitsPerOne) < 2 * (2 ^ (m.log2 + 1) * unitsPerOne) := by
        refine Nat.mul_lt_mul_of_pos_left ?_ (by decide)
        exact Nat.mul_lt_mul_of_pos_right Nat.lt_log2_self (Nat.two_pow_pos _)
    _ = 2 ^ (m.log2 + unitPlaces + 2) := by
      rw [unitsPerOne, ← Nat.pow_add, ← Nat.pow_succ', Nat.succ_eq_add_one, hexponent]
    _ ≤ 2 ^ (3 * k) := Nat.pow_le_pow_right (by decide) h
    _ = 8 ^ k := by rw [Nat.pow_mul]
    _ ≤ 10 ^ k := Nat.pow_le_pow_left (by decide) k

/-- **Every decimal is rounded from its fraction**, those that are settled by their bit length
included. -/
theorem ofDecimal_eq_ofRatio (m : Nat) (s : Int) :
    ofDecimal m s = ofRatio false (m * 10 ^ s.toNat * unitsPerOne) (10 ^ (-s).toNat) := by
  unfold ofDecimal
  dsimp only
  split_ifs with hm hs hlarge hsmall
  · rw [hm, Nat.zero_mul, Nat.zero_mul, ofRatio_eq_zero false (Nat.pow_pos (by decide))]
  · have hden : (-s).toNat = 0 := by omega
    rw [hden, ofRatio_eq_inf false (Nat.pow_pos (by decide))]
    rw [Nat.pow_zero, Nat.mul_one]
    exact unitsLimit_le_of_log2 hm hlarge
  · have hden : (-s).toNat = 0 := by omega
    rw [hden, Nat.pow_zero]
  · have hnum : s.toNat = 0 := by omega
    rw [hnum, Nat.pow_zero, Nat.mul_one, ofRatio_eq_zero false (two_mul_lt_of_log2 hsmall)]
  · have hnum : s.toNat = 0 := by omega
    rw [hnum, Nat.pow_zero, Nat.mul_one]

/-- **Zeros at the end of the digits may be traded for powers of ten.** -/
theorem ofDecimal_mul_pow (m k : Nat) (s : Int) :
    ofDecimal (m * 10 ^ k) s = ofDecimal m (s + k) := by
  rw [ofDecimal_eq_ofRatio, ofDecimal_eq_ofRatio]
  refine ofRatio_congr false (Nat.pow_pos (by decide)) (Nat.pow_pos (by decide)) ?_
  have hexponents : k + s.toNat + (-(s + k)).toNat = (s + k).toNat + (-s).toNat := by omega
  generalize unitsPerOne = one
  calc m * 10 ^ k * 10 ^ s.toNat * one * 10 ^ (-(s + k)).toNat
      = m * 10 ^ (k + s.toNat + (-(s + k)).toNat) * one := by
        rw [Nat.pow_add, Nat.pow_add]
        ac_rfl
    _ = m * 10 ^ (s + k).toNat * one * 10 ^ (-s).toNat := by
        rw [hexponents, Nat.pow_add]
        ac_rfl

/-- Decimals have no sign. -/
theorem isNegative_ofDecimal (m : Nat) (s : Int) : (ofDecimal m s).isNegative = false := by
  rw [ofDecimal_eq_ofRatio, ofRatio]
  split_ifs <;> rfl

end Binary64

end Reckoner
