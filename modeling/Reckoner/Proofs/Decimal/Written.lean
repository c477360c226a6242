import Mathlib
import Reckoner.Decimal.Layout
import Reckoner.Proofs.Decimal.Value
import Reckoner.Proofs.Scanning.Numerals

/-!
# Written Numbers

What a number is written as reads back as the number. The digits that are written are those of a
decimal that reads back; zeros that are cut off at their end are made up for by the place of the
point, and zeros that fill up the gap to the point say nothing. So in each layout, with an exponent
or without one, the digits of a number are a numeral of the value of the decimal.

Main definitions:

* `Layout.Readable`: what a layout adds to the digits of a number means nothing.

Main results:

* `Decimal.ofDecimal_pointed`: the significant digits with their place have the value of the
  decimal;
* `Layout.Readable.exists_numeral_magnitude`: what is written is a numeral of the number;
* `Binary64.parse?_write`: every number is read back.
-/

namespace Reckoner

/-! ### Digits -/

/-- Zeros before the digits say nothing. -/
theorem ofDigitChars_replicate_append (k : Nat) (digits : List Char) :
    Nat.ofDigitChars 10 (List.replicate k '0' ++ digits) 0 = Nat.ofDigitChars 10 digits 0 := by
  rw [Nat.ofDigitChars_append, Nat.ofDigitChars_replicate_zero, Nat.mul_zero]

/-- Zeros behind the digits stand for a power of ten. -/
theorem ofDecimal_append_replicate (digits : List Char) (k : Nat) (s : Int) :
    Binary64.ofDecimal (Nat.ofDigitChars 10 (digits ++ List.replicate k '0') 0) s =
      Binary64.ofDecimal (Nat.ofDigitChars 10 digits 0) (s + k) := by
  rw [Nat.ofDigitChars_append, Nat.ofDigitChars_replicate_zero, Nat.mul_comm]
  exact Binary64.ofDecimal_mul_pow _ k s

/-- Zeros that fill up a gap are digits. -/
theorem isDigit_of_mem_replicate {k : Nat} {c : Char} (hc : c ∈ List.replicate k '0') :
    c.isDigit := by
  rw [List.eq_of_mem_replicate hc]
  rfl

namespace Decimal

/-- The significant digits, and the zeros that were cut off behind them. -/
theorem exists_toDigits_eq_append (d : Decimal) :
    ∃ k, Nat.toDigits 10 d.digits = d.pointed.1 ++ List.replicate k '0' := by
  have hzeros : ∀ c ∈ (Nat.toDigits 10 d.digits).reverse.takeWhile (· = '0'), c = '0' := by
    intro c hc
    simpa using List.mem_takeWhile_imp hc
  have hsplit := congrArg List.reverse
    (List.takeWhile_append_dropWhile (p := (· = '0')) (l := (Nat.toDigits 10 d.digits).reverse))
  rw [List.reverse_append, List.reverse_reverse, List.eq_replicate_of_mem hzeros,
    List.reverse_replicate] at hsplit
  exact ⟨_, hsplit.symm⟩

/-- The significant digits are digits. -/
theorem isDigit_of_mem_pointed {d : Decimal} {c : Char} (hc : c ∈ d.pointed.1) : c.isDigit := by
  obtain ⟨k, hk⟩ := d.exists_toDigits_eq_append
  refine Nat.isDigit_of_mem_toDigits (b := 10) (n := d.digits) (by decide) (by decide) ?_
  rw [hk]
  exact List.mem_append_left _ hc

/-- A decimal other than zero has significant digits. -/
theorem pointed_ne_nil {d : Decimal} (hd : d.digits ≠ 0) : d.pointed.1 ≠ [] := by
  intro hnil
  obtain ⟨k, hk⟩ := d.exists_toDigits_eq_append
  have hvalue := congrArg (Nat.ofDigitChars 10 · 0) hk
  simp only [hnil, List.nil_append, Nat.ofDigitChars_replicate_zero, Nat.mul_zero,
    Nat.ofDigitChars_toDigits (by decide : 1 < 10) (by decide : 10 ≤ 10)] at hvalue
  exact hd hvalue

/-- Zero reads back as nothing else. -/
theorem ReadsBack.digits_ne_zero {d : Decimal} {units : Nat} {hunits : Representable units}
    (h : d.ReadsBack (.finite false units hunits)) (hne : units ≠ 0) : d.digits ≠ 0 := by
  intro hnone
  rw [ReadsBack, hnone] at h
  exact hne (Binary64.finite.inj h).2.symm

/-- **The significant digits with their place have the value of the decimal.** -/
theorem ofDecimal_pointed (d : Decimal) :
    Binary64.ofDecimal (Nat.ofDigitChars 10 d.pointed.1 0) (d.pointed.2 - d.pointed.1.length) =
      Binary64.ofDecimal d.digits d.scale := by
  obtain ⟨k, hk⟩ := d.exists_toDigits_eq_append
  have hplace : d.pointed.2 - d.pointed.1.length = d.scale + k := by
    have hlength := congrArg List.length hk
    rw [List.length_append, List.length_replicate] at hlength
    simp only [pointed] at hlength ⊢
    omega
  rw [hplace, ← ofDecimal_append_replicate, ← hk,
    Nat.ofDigitChars_toDigits (by decide) (by decide)]

end Decimal

/-! ### Layouts -/

namespace Layout

/-- A layout is **readable** if an integer is marked with nothing but zeros behind a point, and an
exponent that is not negative with nothing but its sign. -/
structure Readable (layout : Layout) : Prop where
  integerMark : layout.integerMark = [] ∨ ∃ k, layout.integerMark = '.' :: List.replicate k '0'
  exponentPlus : layout.exponentPlus = [] ∨ layout.exponentPlus = ['+']

/-- The layout of plain reports can be read. -/
theorem readable_plain : plain.Readable :=
  ⟨.inl rfl, .inl rfl⟩

/-- The layout of JSON can be read. -/
theorem readable_interchange : interchange.Readable :=
  ⟨.inr ⟨1, rfl⟩, .inr rfl⟩

variable {layout : Layout} {digits : List Char}

/-- Digits on either side of a point are a numeral. -/
theorem exists_numeral_point {whole fraction : List Char}
    (hdigits : ∀ c ∈ whole ++ fraction, c.isDigit) (hne : whole ≠ [] ∨ fraction ≠ []) :
    ∃ n : Numeral, n.Valid ∧ n.text = whole ++ '.' :: fraction ∧
      n.value =
        Binary64.ofDecimal (Nat.ofDigitChars 10 (whole ++ fraction) 0) (-fraction.length) := by
  refine ⟨⟨whole, some fraction, none⟩,
    ⟨fun c hc => hdigits c (List.mem_append_left _ hc), ?_, hne, by simp⟩, ?_, ?_⟩
  · rintro cs ⟨⟩ c hc
    exact hdigits c (List.mem_append_right _ hc)
  · simp [Numeral.text]
  · simp [Numeral.value, Numeral.mantissa, Numeral.scale]

/-- The mark of an integer is a fraction of zeros, or none. -/
theorem Readable.exists_fraction (h : layout.Readable) :
    ∃ (fraction : Option (List Char)) (k : Nat),
    (fraction.map ('.' :: ·)).getD [] = layout.integerMark ∧
      fraction.getD [] = List.replicate k '0' := by
  rcases h.integerMark with hmark | ⟨k, hmark⟩
  · exact ⟨none, 0, hmark.symm, rfl⟩
  · exact ⟨some (List.replicate k '0'), k, hmark.symm, rfl⟩

/-- An integer is a numeral with its mark. -/
theorem Readable.exists_numeral_integer (h : layout.Readable) (hdigits : ∀ c ∈ digits, c.isDigit)
    (hne : digits ≠ []) : ∃ n : Numeral, n.Valid ∧ n.text = digits ++ layout.integerMark ∧
      n.value = Binary64.ofDecimal (Nat.ofDigitChars 10 digits 0) 0 := by
  obtain ⟨fraction, k, hmark, hfraction⟩ := h.exists_fraction
  refine ⟨⟨digits, fraction, none⟩, ⟨hdigits, ?_, .inl hne, by simp⟩, ?_, ?_⟩
  · rintro cs rfl c hc
    obtain rfl : cs = List.replicate k '0' := hfraction
    exact isDigit_of_mem_replicate hc
  · simp [Numeral.text, hmark]
  · simp [Numeral.value, Numeral.mantissa, Numeral.scale, hfraction, ofDecimal_append_replicate]

/-- **Without an exponent**, digits are a numeral whose point is at their place. -/
theorem Readable.exists_numeral_placePoint (h : layout.Readable) (hdigits : ∀ c ∈ digits, c.isDigit)
    (hne : digits ≠ []) (place : Int) :
    ∃ n : Numeral, n.Valid ∧ n.text = layout.placePoint digits place ∧
      n.value = Binary64.ofDecimal (Nat.ofDigitChars 10 digits 0) (place - digits.length) := by
  unfold placePoint
  dsimp only
  split_ifs with hplace
  · -- The zero before the point is one more in front of the digits.
    have hzeros : ['0'] ++ (List.replicate (-place).toNat '0' ++ digits) =
        List.replicate ((-place).toNat + 1) '0' ++ digits := rfl
    have hscale : -((List.replicate (-place).toNat '0' ++ digits).length : Int) =
        place - digits.length := by
      rw [List.length_append, List.length_replicate]
      omega
    have hdigits' : ∀ c ∈ ['0'] ++ (List.replicate (-place).toNat '0' ++ digits), c.isDigit := by
      rw [hzeros]
      exact fun c hc => (List.mem_append.1 hc).elim isDigit_of_mem_replicate (hdigits c)
    obtain ⟨n, hn, htext, hvalue⟩ := exists_numeral_point hdigits' (.inl (List.cons_ne_nil _ _))
    rw [hzeros, ofDigitChars_replicate_append, hscale] at hvalue
    exact ⟨n, hn, htext, hvalue⟩
  · split
    · next hdrop =>
      have hlength : digits.length ≤ place.toNat := List.drop_eq_nil_iff.1 hdrop
      have hscale : 0 + ((place.toNat - digits.length : Nat) : Int) = place - digits.length := by
        omega
      have hdigits' : ∀ c ∈ digits ++ List.replicate (place.toNat - digits.length) '0', c.isDigit :=
        fun c hc => (List.mem_append.1 hc).elim (hdigits c) isDigit_of_mem_replicate
      obtain ⟨n, hn, htext, hvalue⟩ := h.exists_numeral_integer hdigits' (by simp [hne])
      rw [ofDecimal_append_replicate, hscale] at hvalue
      rw [List.take_of_length_le hlength]
      exact ⟨n, hn, htext, hvalue⟩
    · next hdrop =>
      have hlength : place.toNat < digits.length := by
        simpa [List.drop_eq_nil_iff] using hdrop
      have hscale : -((digits.drop place.toNat).length : Int) = place - digits.length := by
        rw [List.length_drop]
        omega
      have hsplit := List.take_append_drop place.toNat digits
      obtain ⟨n, hn, htext, hvalue⟩ := exists_numeral_point (hsplit ▸ hdigits) (.inr hdrop)
      rw [hsplit, hscale] at hvalue
      exact ⟨n, hn, htext, hvalue⟩

/-- What stands behind the digits of a numeral with an exponent is an exponent. -/
theorem Readable.exists_exponent (h : layout.Readable) (exponent : Int) :
    ∃ e : Exponent, e.Valid ∧ e.value = exponent ∧
      e.text = 'e' :: ((if exponent < 0 then ['-'] else layout.exponentPlus) ++
        Nat.toDigits 10 exponent.natAbs) := by
  have hdigits : ∀ c ∈ Nat.toDigits 10 exponent.natAbs, c.isDigit := fun c hc =>
    Nat.isDigit_of_mem_toDigits (by decide) (by decide) hc
  have hvalid : ∀ sign : Option Char, (∀ c ∈ sign, c = '+' ∨ c = '-') →
      Exponent.Valid ⟨'e', sign, Nat.toDigits 10 exponent.natAbs⟩ := fun sign hsign =>
    ⟨.inl rfl, hsign, hdigits, Nat.toDigits_ne_nil⟩
  have hvalue : Nat.ofDigitChars 10 (Nat.toDigits 10 exponent.natAbs) 0 = exponent.natAbs :=
    Nat.ofDigitChars_toDigits (by decide) (by decide)
  -- A negative exponent has its minus sign, another one the mark of the layout.
  split_ifs with hneg
  · refine ⟨_, hvalid (some '-') (by simp), ?_, rfl⟩
    simp only [Exponent.value, if_true, hvalue]
    omega
  · obtain ⟨sign, hsign, hplus⟩ : ∃ sign : Option Char, (∀ c ∈ sign, c = '+') ∧
        sign.toList = layout.exponentPlus := by
      rcases h.exponentPlus with hplus | hplus
      · exact ⟨none, by simp, hplus.symm⟩
      · exact ⟨some '+', by simp, hplus.symm⟩
    have hminus : sign ≠ some '-' := by
      rintro rfl
      exact absurd (hsign '-' rfl) (by decide)
    refine ⟨_, hvalid sign fun c hc => .inl (hsign c hc), ?_, by rw [← hplus]; rfl⟩
    simp only [Exponent.value, if_neg hminus, hvalue]
    omega

/-- **With an exponent**, digits are a numeral whose point is behind the first of them. -/
theorem Readable.exists_numeral_withExponent (h : layout.Readable)
    (hdigits : ∀ c ∈ digits, c.isDigit) (hne : digits ≠ []) (place : Int) :
    ∃ n : Numeral, n.Valid ∧ n.text = layout.withExponent digits place ∧
      n.value = Binary64.ofDecimal (Nat.ofDigitChars 10 digits 0) (place - digits.length) := by
  obtain ⟨e, he, hvalue, htext⟩ := h.exists_exponent (place - 1)
  obtain ⟨d, ds, rfl⟩ := List.exists_cons_of_ne_nil hne
  have hfirst : ∀ c ∈ [d], c.isDigit := by simpa using hdigits d List.mem_cons_self
  have hscale : place - 1 - (ds.length : Int) = place - (d :: ds).length := by
    rw [List.length_cons]
    omega
  have hexponent : ∀ e' ∈ some e, e'.Valid := by
    rintro e' ⟨⟩
    exact he
  unfold withExponent
  dsimp only [List.take_one, List.head?_cons, Option.toList_some, List.drop_one, List.tail_cons]
  rw [← htext, ← hscale, ← hvalue]
  -- A single digit has no point behind it.
  cases ds with
  | nil =>
    refine ⟨⟨[d], none, some e⟩, ⟨hfirst, by simp, .inl (by simp), hexponent⟩, ?_, ?_⟩
    · simp [Numeral.text]
    · simp [Numeral.value, Numeral.mantissa, Numeral.scale]
  | cons d' ds =>
    refine ⟨⟨[d], some (d' :: ds), some e⟩, ⟨hfirst, ?_, .inl (by simp), hexponent⟩, ?_, ?_⟩
    · rintro cs ⟨⟩ c hc
      exact hdigits c (List.mem_cons_of_mem d hc)
    · simp [Numeral.text]
    · simp [Numeral.value, Numeral.mantissa, Numeral.scale]

/-- A number other than zero is written as the digits of a decimal that reads back. -/
theorem exists_magnitude_eq (layout : Layout) (negative : Bool) {units : Nat}
    (hunits : Representable units)
    (hne : units ≠ 0) : ∃ d : Decimal, d.ReadsBack (.finite false units hunits) ∧
      layout.magnitude (.finite negative units hunits) =
        if layout.positional d.pointed.2 then layout.placePoint d.pointed.1 d.pointed.2
        else layout.withExponent d.pointed.1 d.pointed.2 := by
  refine ⟨Decimal.shortest layout.tie (.finite false units hunits), ?_, ?_⟩
  · exact Decimal.readsBack_shortest layout.tie hunits (Nat.pos_of_ne_zero hne)
  · rw [magnitude, Binary64.units, if_neg hne]
    rfl

/-- **What is written is a numeral of the number**, but for its sign. -/
theorem Readable.exists_numeral_magnitude (h : layout.Readable) {x : Binary64} (hx : x.isFinite) :
    ∃ n : Numeral, n.Valid ∧ n.text = layout.magnitude x ∧ n.value = x.abs := by
  cases x with
  | nan | inf _ => cases hx
  | finite negative units hunits =>
    by_cases hzero : units = 0
    · subst hzero
      have hdigit : ∀ c ∈ ['0'], c.isDigit := List.forall_mem_singleton.2 rfl
      exact h.exists_numeral_integer hdigit (List.cons_ne_nil _ _)
    obtain ⟨d, hreads, hmagnitude⟩ := layout.exists_magnitude_eq negative hunits hzero
    have hdigits : ∀ c ∈ d.pointed.1, c.isDigit := fun c hc => Decimal.isDigit_of_mem_pointed hc
    have hne := Decimal.pointed_ne_nil (hreads.digits_ne_zero hzero)
    obtain ⟨n, hn, htext, hvalue⟩ : ∃ n : Numeral, n.Valid ∧
        n.text = layout.magnitude (.finite negative units hunits) ∧
        n.value = Binary64.ofDecimal (Nat.ofDigitChars 10 d.pointed.1 0)
          (d.pointed.2 - d.pointed.1.length) := by
      rw [hmagnitude]
      split_ifs
      · exact h.exists_numeral_placePoint hdigits hne _
      · exact h.exists_numeral_withExponent hdigits hne _
    exact ⟨n, hn, htext, hvalue.trans (d.ofDecimal_pointed.trans hreads)⟩

end Layout

/-! ### Reading back -/

namespace Binary64

/-- A finite number is written with its sign before a numeral. -/
theorem toList_write {x : Binary64} (hx : x.isFinite) (layout : Layout) :
    (x.write layout).toList = (if x.isNegative then ['-'] else []) ++ layout.magnitude x := by
  cases x with
  | nan | inf _ => cases hx
  | finite negative units hunits => exact String.toList_ofList

/-- A finite number without a minus sign is written as a numeral. -/
theorem exists_numeral_write {layout : Layout} (h : layout.Readable) {x : Binary64}
    (hx : x.isFinite)
    (hsign : x.isNegative = false) :
    ∃ n : Numeral, n.Valid ∧ n.text = (x.write layout).toList ∧ n.value = x := by
  obtain ⟨n, hn, htext, hvalue⟩ := h.exists_numeral_magnitude hx
  refine ⟨n, hn, ?_, ?_⟩
  · rw [toList_write hx, hsign, htext]
    rfl
  · cases x with
    | nan | inf _ => cases hx
    | finite negative units hunits =>
      obtain rfl : negative = false := hsign
      exact hvalue

/-- **Every number is read back** from what it is written as, to the sign of a zero. -/
theorem parse?_write {layout : Layout} (h : layout.Readable) (x : Binary64) :
    parse? (x.write layout) = some x := by
  cases x with
  | nan =>
    have hnan : parse? "NaN" = some nan := by decide
    exact hnan
  | inf negative =>
    have hinf : parse? "inf" = some (inf false) ∧ parse? "-inf" = some (inf true) := by decide
    cases negative
    · exact hinf.1
    · exact hinf.2
  | finite negative units hunits =>
    cases negative with
    | false =>
      obtain ⟨n, hn, htext, hvalue⟩ :=
        exists_numeral_write h (x := finite false units hunits) rfl rfl
      rw [← String.ofList_toList (s := write layout _), ← htext, Numeral.parse?_text hn, hvalue]
    | true =>
      obtain ⟨n, hn, htext, hvalue⟩ :=
        h.exists_numeral_magnitude (x := finite true units hunits) rfl
      have hwrite := toList_write (x := finite true units hunits) rfl layout
      have hminus : (write layout (finite true units hunits)).toList = '-' :: n.text :=
        htext ▸ hwrite
      simp only [parse?, hminus, Numeral.parseUnsigned?_text hn, hvalue]
      rfl

end Binary64

end Reckoner
