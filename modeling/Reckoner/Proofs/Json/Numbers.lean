import Mathlib
import Reckoner.Proofs.Decimal.Written
import Reckoner.Proofs.Json.Reading
import Reckoner.Proofs.Scanning.Delimiters

/-!
# Numbers in JSON

What a JSON number is written as reads back as the number. It is written as a strict numeral: its
digits do not open with zero unless it is the only one before the point, and since a whole number of
double precision carries a point and a zero, it is never mistaken for an integer.

Main definitions:

* `StrictFraction`: the texts of strict numerals that are no integers;
* `Json.WritesNumber`: the texts of numbers.

Main results:

* `Layout.strictFraction_magnitude`: a finite number is written strictly;
* `Json.writesNumber_int`, `Json.writesNumber_float`: the text of a number is one;
* `Json.WritesNumber.number?_eq`: a number is read back in front of what ends it.
-/

namespace Reckoner

/-! ### Strict numerals -/

/-- The whole part of a numeral is the run of digits that it opens with. -/
theorem Numeral.Valid.whole_eq {n : Numeral} (hn : n.Valid) {whole rest : List Char}
    (htext : n.text = whole ++ rest) (hwhole : ∀ c ∈ whole, c.isDigit)
    (hrest : ∀ c ∈ rest.head?, c.isDigit = false) :
    n.whole = whole ∧
      (n.fraction.map ('.' :: ·)).getD [] ++ (n.exponent.map Exponent.text).getD [] = rest := by
  have hstop : ∀ c ∈ ((n.fraction.map ('.' :: ·)).getD [] ++
      (n.exponent.map Exponent.text).getD []).head?, c.isDigit = false := by
    cases hfraction : n.fraction with
    | some fraction =>
      rintro c ⟨⟩
      rfl
    | none =>
      cases hexponent : n.exponent with
      | none => simp
      | some e =>
        simpa using Numeral.isDigit_of_mem_head?_exponent (hn.exponent e hexponent) []
  rw [Numeral.text, List.append_assoc] at htext
  have htake := congrArg (List.takeWhile Char.isDigit) htext
  rw [takeWhile_append_stop hn.whole hstop, takeWhile_append_stop hwhole hrest] at htake
  rw [htake] at htext
  exact ⟨htake, List.append_cancel_left htext⟩

/-- What stands behind the digits that a number opens with, if it is no integer: a point with a
digit behind it, or an exponent. -/
inductive OpensFraction : List Char → Prop
  | point {d : Char} (cs : List Char) : d.isDigit → OpensFraction ('.' :: d :: cs)
  | exponent (cs : List Char) : OpensFraction ('e' :: cs)

/-- What stands behind the digits is no digit. -/
theorem OpensFraction.isDigit_of_mem_head? {rest : List Char} (h : OpensFraction rest) :
    ∀ c ∈ rest.head?, c.isDigit = false := by
  cases h with
  | point _ _ | exponent _ =>
    rintro c ⟨⟩
    rfl

/-- The text of a strict numeral that is no integer, by how it opens. -/
inductive StrictFraction : List Char → Prop
  | intro {whole rest : List Char} : (∀ c ∈ whole, c.isDigit) → whole ≠ [] →
      (whole.head? = some '0' → whole = ['0']) → OpensFraction rest → StrictFraction (whole ++ rest)

/-- A zero may stand alone in front of a point with digits or of an exponent. -/
theorem strictFraction_zero {rest : List Char} (h : OpensFraction rest) :
    StrictFraction ('0' :: rest) :=
  @StrictFraction.intro ['0'] rest (List.forall_mem_singleton.2 rfl) (by simp) (fun _ => rfl) h

/-- A numeral with such a text is strict, and no integer. -/
theorem Numeral.Valid.isStrict_of_text {n : Numeral} (hn : n.Valid) (h : StrictFraction n.text) :
    n.IsStrict ∧ n.isInteger = false := by
  generalize htext : n.text = text at h
  cases h with
  | @intro whole rest hwhole hne hzero hrest =>
  obtain ⟨rfl, htail⟩ := hn.whole_eq htext hwhole hrest.isDigit_of_mem_head?
  refine ⟨⟨hne, hzero, fun hfraction => ?_⟩, ?_⟩
  · -- What stands behind a point without digits is no digit.
    rw [hfraction] at htail
    cases hrest with
    | exponent _ => simp at htail
    | @point d cs hd =>
      have hexponent : (n.exponent.map Exponent.text).getD [] = d :: cs := by simpa using htail
      cases he : n.exponent with
      | none => simp [he] at hexponent
      | some e =>
        have hstop := isDigit_of_mem_head?_exponent (hn.exponent e he) [] d
        simp only [he, Option.map_some, Option.getD_some] at hexponent
        rw [List.append_nil, hexponent] at hstop
        rw [hstop rfl] at hd
        cases hd
  · cases hfraction : n.fraction with
    | some _ => simp [isInteger, hfraction]
    | none =>
      cases he : n.exponent with
      | some _ => simp [isInteger, he]
      | none =>
        rw [hfraction, he] at htail
        cases hrest <;> simp at htail

/-! ### Written numbers -/

/-- The digits of a number other than zero do not open with zero. -/
theorem head?_toDigits_ne {n : Nat} (hn : n ≠ 0) : (Nat.toDigits 10 n).head? ≠ some '0' := by
  induction n using Nat.strong_induction_on with
  | _ n ih =>
    rcases Nat.lt_or_ge n 10 with hlt | hle
    · rw [Nat.toDigits_of_lt_base hlt]
      simpa [Nat.digitChar_eq_zero] using hn
    · have hfront := ih (n / 10) (by omega) (by omega)
      rwa [Nat.toDigits_of_base_le (by decide) hle,
        List.head?_append_of_ne_nil _ Nat.toDigits_ne_nil]

/-- The significant digits of a decimal do not open with zero. -/
theorem Decimal.head?_pointed_ne {d : Decimal} (hd : d.digits ≠ 0) :
    d.pointed.1.head? ≠ some '0' := by
  obtain ⟨k, hk⟩ := d.exists_toDigits_eq_append
  have hhead := head?_toDigits_ne hd
  rwa [hk, List.head?_append_of_ne_nil _ (pointed_ne_nil hd)] at hhead

namespace Layout

variable {layout : Layout} {digits : List Char}

/-- Without an exponent, digits that do not open with zero are strict, if integers have a mark. -/
theorem strictFraction_placePoint (hmark : OpensFraction layout.integerMark)
    (hdigits : ∀ c ∈ digits, c.isDigit) (hne : digits ≠ []) (hhead : digits.head? ≠ some '0')
    (place : Int) : StrictFraction (layout.placePoint digits place) := by
  unfold placePoint
  dsimp only
  split_ifs with hplace
  · obtain ⟨d, ds, hfraction⟩ : ∃ d ds, List.replicate (-place).toNat '0' ++ digits = d :: ds :=
      List.exists_cons_of_ne_nil (by simp [hne])
    have hd : d.isDigit := by
      have hmem : d ∈ List.replicate (-place).toNat '0' ++ digits := hfraction ▸ List.mem_cons_self
      exact (List.mem_append.1 hmem).elim isDigit_of_mem_replicate (hdigits d)
    rw [hfraction]
    exact strictFraction_zero (.point ds hd)
  · -- The point is behind the first digit at least.
    have htake : digits.take place.toNat ≠ [] := by
      simp only [ne_eq, List.take_eq_nil_iff, hne, or_false]
      omega
    have hhead' : (digits.take place.toNat).head? ≠ some '0' := by
      rwa [List.head?_take, if_neg (by omega)]
    have hmem : ∀ c ∈ digits.take place.toNat, c.isDigit := fun c hc =>
      hdigits c (List.mem_of_mem_take hc)
    split
    · refine .intro (fun c hc => ?_) (by simp [htake]) (fun h => absurd h ?_) hmark
      · exact (List.mem_append.1 hc).elim (hmem c) isDigit_of_mem_replicate
      · rwa [List.head?_append_of_ne_nil _ htake]
    · next hdrop =>
      obtain ⟨f, fs, hfraction⟩ := List.exists_cons_of_ne_nil hdrop
      have hf : f.isDigit := hdigits f (List.mem_of_mem_drop (hfraction ▸ List.mem_cons_self))
      rw [hfraction]
      exact .intro hmem htake (fun h => absurd h hhead') (.point fs hf)

/-- With an exponent they are. -/
theorem strictFraction_withExponent (hdigits : ∀ c ∈ digits, c.isDigit) (hne : digits ≠ [])
    (hhead : digits.head? ≠ some '0') (place : Int) :
    StrictFraction (layout.withExponent digits place) := by
  obtain ⟨d, ds, rfl⟩ := List.exists_cons_of_ne_nil hne
  have hd : ∀ c ∈ [d], c.isDigit := List.forall_mem_singleton.2 (hdigits d List.mem_cons_self)
  have hzero : [d].head? = some '0' → [d] = ['0'] := fun h => absurd h hhead
  unfold withExponent
  dsimp only
  rw [List.append_assoc]
  cases ds with
  | nil => exact .intro hd (by simp) hzero (.exponent _)
  | cons d' ds => exact .intro hd (by simp) hzero (.point _ (hdigits d' (by simp)))

/-- **A finite number is written strictly** where integers have a mark, and never as an integer. -/
theorem strictFraction_magnitude (hmark : OpensFraction layout.integerMark) {x : Binary64}
    (hx : x.isFinite) : StrictFraction (layout.magnitude x) := by
  cases x with
  | nan | inf _ => cases hx
  | finite negative units hunits =>
    by_cases hzero : units = 0
    · rw [magnitude, Binary64.units, if_pos hzero]
      exact strictFraction_zero hmark
    obtain ⟨d, hreads, hmagnitude⟩ := layout.exists_magnitude_eq negative hunits hzero
    have hdigits : ∀ c ∈ d.pointed.1, c.isDigit := fun c hc => Decimal.isDigit_of_mem_pointed hc
    have hne := Decimal.pointed_ne_nil (hreads.digits_ne_zero hzero)
    have hhead := Decimal.head?_pointed_ne (hreads.digits_ne_zero hzero)
    rw [hmagnitude]
    split_ifs
    · exact strictFraction_placePoint hmark hdigits hne hhead _
    · exact strictFraction_withExponent hdigits hne hhead _

end Layout

/-- **In JSON, a finite number is written as a strict numeral** behind its sign. -/
theorem Binary64.exists_numeral_interchange {x : Binary64} (hx : x.isFinite) :
    ∃ n : Numeral, n.Valid ∧ n.IsStrict ∧ n.isInteger = false ∧
      n.text = Layout.interchange.magnitude x ∧ n.value = x.abs := by
  obtain ⟨n, hn, htext, hvalue⟩ := Layout.readable_interchange.exists_numeral_magnitude hx
  have hmark : OpensFraction Layout.interchange.integerMark := .point [] rfl
  have hstrict := hn.isStrict_of_text (htext ▸ Layout.strictFraction_magnitude hmark hx)
  exact ⟨n, hn, hstrict.1, hstrict.2, htext, hvalue⟩

/-! ### Reading numbers back -/

namespace Json

/-- A numeral is scanned in front of what ends it. -/
theorem scan?_numeral {n : Numeral} (hn : n.Valid) {rest : List Char} (hrest : Apart rest) :
    Numeral.scan? (n.text ++ rest) = some (n, rest) := by
  obtain ⟨m, rest', hscan, hm⟩ := Numeral.scan?_append hn rest
  have htext := Numeral.text_append_scan? hscan
  rcases hm with rfl | hlt
  · rw [hscan, List.append_cancel_left htext]
  · -- A longer numeral would be a longer token.
    have hlongest := (Spells.number hn).longest hrest
    have hspells := Spells.number (Numeral.valid_of_scan? hscan)
    exact absurd (hlongest.length_le hspells ⟨rest', htext⟩) (Nat.not_le.2 hlt)

/-- **A strict numeral is read behind its sign.** -/
theorem number?_numeral (negative : Bool) {n : Numeral} (hn : n.Valid) (hstrict : n.IsStrict)
    {rest : List Char} (hrest : Apart rest) :
    number? ((if negative then ['-'] else []) ++ n.text ++ rest) =
      some (ofNumeral negative n, rest) := by
  have hunsigned : ∀ negative,
      unsigned? negative (n.text ++ rest) = some (ofNumeral negative n, rest) := by
    intro negative
    simp only [unsigned?, scan?_numeral hn hrest, if_pos hstrict]
  cases negative with
  | true => exact hunsigned true
  | false =>
    obtain ⟨c, cs, hcons, hc⟩ := Numeral.exists_text_eq_cons hn
    have hminus : c ≠ '-' := by
      rintro rfl
      simp at hc
    rw [← hunsigned false, if_neg (by simp), List.nil_append, hcons, List.cons_append,
      number?.eq_2 _ (by simp [hminus])]

/-- A text is what a **number** is written as: a sign, if there is one, and a strict numeral. -/
inductive WritesNumber (v : Json) : List Char → Prop
  | intro (negative : Bool) {n : Numeral} : n.Valid → n.IsStrict → ofNumeral negative n = v →
      WritesNumber v ((if negative then ['-'] else []) ++ n.text)

/-- An integer is written as a number, without zeros in front. -/
theorem writesNumber_int (k : Int) : WritesNumber (.int k) (render (.int k)).toList := by
  have hdigits : ∀ c ∈ Nat.toDigits 10 k.natAbs, c.isDigit := fun c hc =>
    Nat.isDigit_of_mem_toDigits (by decide) (by decide) hc
  have hvalid : Numeral.Valid ⟨Nat.toDigits 10 k.natAbs, none, none⟩ :=
    ⟨hdigits, by simp, .inl Nat.toDigits_ne_nil, by simp⟩
  have hmantissa : Numeral.mantissa ⟨Nat.toDigits 10 k.natAbs, none, none⟩ = k.natAbs := by
    simp [Numeral.mantissa]
  have hstrict : Numeral.IsStrict ⟨Nat.toDigits 10 k.natAbs, none, none⟩ := by
    refine ⟨Nat.toDigits_ne_nil, fun hzero => ?_, by simp⟩
    by_cases hk : k.natAbs = 0
    · rw [hk]
      rfl
    · exact absurd hzero (head?_toDigits_ne hk)
  have hvalue : ofNumeral (decide (k < 0)) ⟨Nat.toDigits 10 k.natAbs, none, none⟩ = .int k := by
    rw [ofNumeral, hmantissa, if_pos ⟨rfl, by simp; omega⟩, Json.int.injEq]
    split_ifs with hneg
    · rw [decide_eq_true_eq] at hneg
      omega
    · rw [decide_eq_true_eq] at hneg
      omega
  have htext : (render (.int k)).toList =
      (if decide (k < 0) then ['-'] else []) ++
        Numeral.text ⟨Nat.toDigits 10 k.natAbs, none, none⟩ := by
    cases k with
    | ofNat m => simp [render, toString, Int.repr, Numeral.text]
    | negSucc m => simp [render, toString, Int.repr, Numeral.text, Int.negSucc_lt_zero]
  rw [htext]
  exact .intro _ hvalid hstrict hvalue

/-- A finite double-precision number is written as a number, with a point or an exponent. -/
theorem writesNumber_float {x : Binary64} (hx : x.isFinite) :
    WritesNumber (.float x) (render (.float x)).toList := by
  obtain ⟨n, hn, hstrict, hinteger, htext, hvalue⟩ := Binary64.exists_numeral_interchange hx
  have hwrite : (render (.float x)).toList = (if x.isNegative then ['-'] else []) ++ n.text := by
    rw [render, renderFloat, if_pos hx, Binary64.toList_write hx, htext]
  have hsame : ofNumeral x.isNegative n = .float x := by
    rw [ofNumeral, if_neg (by simp [hinteger]), hvalue]
    cases hneg : x.isNegative with
    | true => rw [if_pos rfl, Binary64.neg_abs_of_isNegative hneg]
    | false => rw [if_neg (by simp), Binary64.abs_of_isNegative hx hneg]
  rw [hwrite]
  exact .intro _ hn hstrict hsame

variable {v : Json} {text : List Char}

/-- What a number is written as opens with a minus sign, a digit or a point, and so with nothing
else. -/
theorem WritesNumber.exists_head? (h : WritesNumber v text) : ∃ c, text.head? = some c ∧
    ∀ d, (d = '-' || d.isDigit || d = '.') = false → c ≠ d := by
  obtain ⟨c, htext, hc⟩ : ∃ c, text.head? = some c ∧ (c = '-' || c.isDigit || c = '.') = true := by
    cases h with
    | intro negative hn _ _ =>
      obtain ⟨c, cs, hcons, hc⟩ := Numeral.exists_text_eq_cons hn
      cases negative with
      | true => exact ⟨'-', rfl, rfl⟩
      | false => exact ⟨c, by simp [hcons], by simpa [or_assoc] using .inr hc⟩
  refine ⟨c, htext, ?_⟩
  rintro d hd rfl
  rw [hd] at hc
  cases hc

/-- **A number is read back** in front of what ends it. -/
theorem WritesNumber.number?_eq (h : WritesNumber v text) {rest : List Char} (hrest : Apart rest) :
    number? (text ++ rest) = some (v, rest) := by
  cases h with
  | intro negative hn hstrict hvalue => rw [number?_numeral negative hn hstrict hrest, hvalue]

/-- What a number is written as has no control characters. -/
theorem WritesNumber.toNat_of_mem (h : WritesNumber v text) : ∀ c ∈ text, 32 ≤ c.toNat := by
  cases h with
  | intro negative hn _ _ =>
    refine List.forall_mem_append.2 ⟨by cases negative <;> simp, fun c hc => ?_⟩
    rcases hn.mem_text hc with hname | rfl | rfl | rfl
    · rw [isNameChar_iff, isNameStart_iff_toNat, Char.isDigit_iff_toNat] at hname
      have hzero : '0'.toNat = 48 := rfl
      omega
    all_goals decide

end Json

end Reckoner
