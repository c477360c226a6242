import Mathlib
import Reckoner.Decimal.Reading

/-!
# The Longest Numeral

Which texts are numerals, said without a scanner: `D+ ('.' D*)?` or `'.' D+`, with an optional
exponent `[eE] [+-]? D+`. The scanner takes the longest one off the front of a text, and with it all
that a numeral of the text says: a numeral that it is given back by itself is read in full.

Main definitions:

* `Exponent.Valid`, `Numeral.Valid`: the parts of a numeral are what the grammar asks for.

Main results:

* `Numeral.valid_of_scan?`: what is scanned is a numeral;
* `Numeral.scan?_append`: in front of any text, a numeral is scanned, or a longer one is;
* `Numeral.parse?_text`: every numeral is read as a free-standing number text.
-/

namespace Reckoner

/-! ### Numerals -/

/-- The parts of an **exponent**: `[eE] [+-]? D+`. -/
structure Exponent.Valid (e : Exponent) : Prop where
  mark : e.mark = 'e' ∨ e.mark = 'E'
  sign : ∀ c ∈ e.sign, c = '+' ∨ c = '-'
  digits : ∀ c ∈ e.digits, c.isDigit
  digits_ne_nil : e.digits ≠ []

/-- The parts of a **numeral**: `D+ ('.' D*)?` or `'.' D+`, with an optional exponent. -/
structure Numeral.Valid (n : Numeral) : Prop where
  whole : ∀ c ∈ n.whole, c.isDigit
  fraction : ∀ cs ∈ n.fraction, ∀ c ∈ cs, c.isDigit
  digit : n.whole ≠ [] ∨ n.fraction.getD [] ≠ []
  exponent : ∀ e ∈ n.exponent, e.Valid

/-! ### Runs of characters -/

/-- A run of characters of a class ends before a character that is not in the class. -/
theorem takeWhile_append_stop {p : Char → Bool} {run rest : List Char} (hrun : ∀ c ∈ run, p c)
    (hrest : ∀ c ∈ rest.head?, p c = false) : (run ++ rest).takeWhile p = run := by
  rw [List.takeWhile_append_of_pos hrun]
  cases rest with
  | nil => simp
  | cons c rest => simp [hrest c rfl]

/-- What is left behind a run starts where the run stops. -/
theorem dropWhile_append_stop {p : Char → Bool} {run rest : List Char} (hrun : ∀ c ∈ run, p c)
    (hrest : ∀ c ∈ rest.head?, p c = false) : (run ++ rest).dropWhile p = rest := by
  rw [List.dropWhile_append_of_pos hrun]
  cases rest with
  | nil => rfl
  | cons c rest => simp [hrest c rfl]

/-! ### What is scanned is a numeral -/

/-- An exponent that is scanned is well formed. -/
theorem Exponent.valid_of_scan? {cs rest : List Char} {e : Exponent}
    (h : scan? cs = some (e, rest)) : e.Valid := by
  cases cs with
  | nil => simp [scan?] at h
  | cons c cs =>
    simp only [scan?] at h
    split_ifs at h with hscan
    obtain ⟨rfl, -⟩ := Prod.mk.inj (Option.some.inj h)
    refine ⟨hscan.1, ?_, fun c hc => List.mem_takeWhile_imp hc, hscan.2⟩
    cases cs with
    | nil => simp [scanSign]
    | cons d cs =>
      simp only [scanSign]
      split_ifs with hsign
      · simpa using hsign
      · simp

/-- A fraction that is scanned is made of digits. -/
theorem Numeral.isDigit_of_mem_scanFraction {cs fraction : List Char}
    (h : fraction ∈ (scanFraction cs).1) : ∀ c ∈ fraction, c.isDigit := by
  unfold scanFraction at h
  split at h
  · obtain rfl := Option.some.inj h
    exact fun c hc => List.mem_takeWhile_imp hc
  · cases h

/-- A numeral that is scanned is well formed. -/
theorem Numeral.valid_of_scan? {cs rest : List Char} {n : Numeral}
    (h : scan? cs = some (n, rest)) : n.Valid := by
  simp only [scan?] at h
  split_ifs at h with hdigit
  have hdigit' := not_and_or.1 hdigit
  have hwhole : ∀ c ∈ cs.takeWhile Char.isDigit, c.isDigit := fun c hc => List.mem_takeWhile_imp hc
  have hfraction : ∀ fraction ∈ (scanFraction (cs.dropWhile Char.isDigit)).1,
      ∀ c ∈ fraction, c.isDigit := fun _ h => isDigit_of_mem_scanFraction h
  simp only [scanTail] at h
  split at h
  · next e rest' he =>
    obtain ⟨rfl, -⟩ := Prod.mk.inj (Option.some.inj h)
    refine ⟨hwhole, hfraction, hdigit', fun e' he' => ?_⟩
    obtain rfl := Option.some.inj he'
    exact Exponent.valid_of_scan? he
  · obtain ⟨rfl, -⟩ := Prod.mk.inj (Option.some.inj h)
    exact ⟨hwhole, hfraction, hdigit', by simp⟩

/-! ### A numeral is scanned, or a longer one -/

/-- A sign in front of digits is scanned apart from them. -/
theorem Exponent.scanSign_append_digits {sign : Option Char} {digits : List Char}
    (hsign : ∀ c ∈ sign, c = '+' ∨ c = '-') (hdigits : ∀ c ∈ digits, c.isDigit)
    (hne : digits ≠ []) (rest : List Char) :
    scanSign (sign.toList ++ (digits ++ rest)) = (sign, digits ++ rest) := by
  cases sign with
  | some c =>
    rw [Option.toList_some, List.singleton_append, scanSign, if_pos (hsign c rfl)]
  | none =>
    obtain ⟨d, ds, rfl⟩ := List.exists_cons_of_ne_nil hne
    have hd := hdigits d List.mem_cons_self
    have hsymbol : ¬ (d = '+' ∨ d = '-') := by
      rintro (rfl | rfl)
      · exact absurd hd (by decide)
      · exact absurd hd (by decide)
    rw [Option.toList_none, List.nil_append, List.cons_append, scanSign, if_neg hsymbol]

/-- An exponent is scanned with all digits that follow it. -/
theorem Exponent.scan?_append {e : Exponent} (he : e.Valid) (rest : List Char) :
    scan? (e.text ++ rest) = some (⟨e.mark, e.sign, e.digits ++ rest.takeWhile Char.isDigit⟩,
      rest.dropWhile Char.isDigit) := by
  have hsign := scanSign_append_digits he.sign he.digits he.digits_ne_nil rest
  simp only [text, List.cons_append, List.append_assoc, scan?, hsign,
    List.takeWhile_append_of_pos he.digits, List.dropWhile_append_of_pos he.digits]
  rw [if_pos ⟨he.mark, by simp [he.digits_ne_nil]⟩]

namespace Numeral

/-- What is scanned behind the digits of a numeral makes it longer, if it is anything. -/
theorem scanTail_eq_or (whole : List Char) (fraction : Option (List Char)) (cs : List Char) :
    (scanTail whole fraction cs).1 = ⟨whole, fraction, none⟩ ∨
      (text ⟨whole, fraction, none⟩).length < (scanTail whole fraction cs).1.text.length := by
  unfold scanTail
  split
  · next e rest he => simp [text, Exponent.text]
  · exact .inl rfl

/-- The tail of a numeral makes it no shorter. -/
theorem length_le_scanTail (whole : List Char) (fraction : Option (List Char)) (cs : List Char) :
    (text ⟨whole, fraction, none⟩).length ≤ (scanTail whole fraction cs).1.text.length := by
  rcases scanTail_eq_or whole fraction cs with h | h
  · rw [h]
  · exact h.le

/-- The exponent of a numeral is scanned, or one with more digits. -/
theorem scanTail_exponent (whole : List Char) (fraction : Option (List Char)) {e : Exponent}
    (he : e.Valid) (rest : List Char) :
    (scanTail whole fraction (e.text ++ rest)).1 = ⟨whole, fraction, some e⟩ ∨
      (text ⟨whole, fraction, some e⟩).length <
        (scanTail whole fraction (e.text ++ rest)).1.text.length := by
  rw [scanTail, Exponent.scan?_append he]
  cases hmore : rest.takeWhile Char.isDigit with
  | nil => simp
  | cons d ds => simp [text, Exponent.text]

/-- An exponent or nothing ends a run of digits. -/
theorem isDigit_of_mem_head?_exponent {e : Exponent} (he : e.Valid) (rest : List Char) :
    ∀ c ∈ (e.text ++ rest).head?, c.isDigit = false := by
  intro c hc
  obtain rfl : e.mark = c := Option.some.inj hc
  rcases he.mark with h | h <;> rw [h] <;> rfl

/-- Digits that no point follows are scanned up to where they end. -/
theorem scan?_whole {whole rest : List Char} (hwhole : ∀ c ∈ whole, c.isDigit) (hne : whole ≠ [])
    (hrest : ∀ c ∈ rest.head?, c.isDigit = false) (hpoint : rest.head? ≠ some '.') :
    scan? (whole ++ rest) = some (scanTail whole none rest) := by
  have hfraction : scanFraction rest = (none, rest) := by
    unfold scanFraction
    split
    · simp at hpoint
    · rfl
  simp only [scan?, takeWhile_append_stop hwhole hrest, dropWhile_append_stop hwhole hrest,
    hfraction]
  rw [if_neg (by simp [hne])]

/-- Digits that a point follows are scanned with the digits behind it. -/
theorem scan?_point {whole rest : List Char} (hwhole : ∀ c ∈ whole, c.isDigit)
    (hdigit : whole ≠ [] ∨ rest.takeWhile Char.isDigit ≠ []) :
    scan? (whole ++ '.' :: rest) = some (scanTail whole (some (rest.takeWhile Char.isDigit))
      (rest.dropWhile Char.isDigit)) := by
  have hstop : ∀ c ∈ ('.' :: rest).head?, c.isDigit = false := by
    intro c hc
    obtain rfl : '.' = c := Option.some.inj hc
    rfl
  simp only [scan?, takeWhile_append_stop hwhole hstop, dropWhile_append_stop hwhole hstop,
    scanFraction, Option.getD_some]
  rw [if_neg (not_and_or.2 hdigit)]

/-- The digits of a numeral with an exponent are scanned. -/
theorem scan?_digits_exponent {n : Numeral} (hn : n.Valid) {e : Exponent}
    (he : n.exponent = some e) (rest : List Char) :
    scan? (n.text ++ rest) = some (scanTail n.whole n.fraction (e.text ++ rest)) := by
  have hvalid := hn.exponent e he
  have hstop := isDigit_of_mem_head?_exponent hvalid rest
  obtain ⟨whole, fraction, exponent⟩ := n
  obtain rfl : exponent = some e := he
  cases fraction with
  | none =>
    have hne : whole ≠ [] := by simpa using hn.digit
    have hpoint : (e.text ++ rest).head? ≠ some '.' := by
      rcases hvalid.mark with h | h <;> simp [Exponent.text, h]
    simpa [text] using scan?_whole hn.whole hne hstop hpoint
  | some fraction =>
    have hfraction := hn.fraction fraction rfl
    have htake := takeWhile_append_stop hfraction hstop
    have hdrop := dropWhile_append_stop hfraction hstop
    have hdigit : whole ≠ [] ∨ (fraction ++ (e.text ++ rest)).takeWhile Char.isDigit ≠ [] := by
      simpa [htake] using hn.digit
    simpa [text, htake, hdrop] using scan?_point hn.whole hdigit

/-- The digits of a numeral without an exponent are scanned, or more of them. -/
theorem scan?_digits {n : Numeral} (hn : n.Valid) (he : n.exponent = none) (rest : List Char) :
    ∃ whole fraction cs, scan? (n.text ++ rest) = some (scanTail whole fraction cs) ∧
      (n = ⟨whole, fraction, none⟩ ∨ n.text.length < (text ⟨whole, fraction, none⟩).length) := by
  obtain ⟨whole, fraction, exponent⟩ := n
  obtain rfl : exponent = none := he
  have hwhole := hn.whole
  cases fraction with
  | none =>
    have hne : whole ≠ [] := by simpa using hn.digit
    obtain ⟨part, hpart⟩ : ∃ part, scanFraction (rest.dropWhile Char.isDigit) = part := ⟨_, rfl⟩
    refine ⟨whole ++ rest.takeWhile Char.isDigit, part.1, part.2, ?_, ?_⟩
    · simp only [text, scan?, Option.map_none, Option.getD_none, List.append_nil,
        List.takeWhile_append_of_pos hwhole, List.dropWhile_append_of_pos hwhole, hpart]
      rw [if_neg (by simp [hne])]
    · -- Digits that follow make the numeral longer.
      cases rest.takeWhile Char.isDigit with
      | nil => cases part.1 <;> simp [text]
      | cons d ds =>
        right
        simp [text]
  | some fraction =>
    have hfraction := hn.fraction fraction rfl
    have htake : (fraction ++ rest).takeWhile Char.isDigit =
        fraction ++ rest.takeWhile Char.isDigit := List.takeWhile_append_of_pos hfraction
    have hdigit : whole ≠ [] ∨ (fraction ++ rest).takeWhile Char.isDigit ≠ [] := by
      refine hn.digit.imp_right fun h heq => h ?_
      exact (List.append_eq_nil_iff.1 (htake ▸ heq)).1
    refine ⟨whole, _, _, by simpa [text] using scan?_point hwhole hdigit, ?_⟩
    rw [htake]
    cases rest.takeWhile Char.isDigit with
    | nil => simp
    | cons d ds => simp [text]

/-- **A numeral is scanned, or a longer one**, in front of any text. -/
theorem scan?_append {n : Numeral} (hn : n.Valid) (rest : List Char) :
    ∃ m rest', scan? (n.text ++ rest) = some (m, rest') ∧
      (m = n ∨ n.text.length < m.text.length) := by
  cases he : n.exponent with
  | some e =>
    obtain ⟨whole, fraction, exponent⟩ := n
    obtain rfl : exponent = some e := he
    rw [scan?_digits_exponent hn rfl]
    exact ⟨_, _, rfl, scanTail_exponent whole fraction (hn.exponent e rfl) rest⟩
  | none =>
    obtain ⟨whole, fraction, cs, hscan, heq | hlt⟩ := scan?_digits hn he rest
    · subst heq
      exact ⟨_, _, hscan, scanTail_eq_or whole fraction cs⟩
    · exact ⟨_, _, hscan, .inr (hlt.trans_le (length_le_scanTail whole fraction cs))⟩

/-- A numeral by itself is scanned in full. -/
theorem scan?_text {n : Numeral} (hn : n.Valid) : scan? n.text = some (n, []) := by
  obtain ⟨m, rest, hscan, h⟩ := scan?_append hn []
  rw [List.append_nil] at hscan
  have htext := text_append_scan? hscan
  rcases h with rfl | hlt
  · rw [List.append_right_eq_self.1 htext] at hscan
    exact hscan
  · have := congrArg List.length htext
    rw [List.length_append] at this
    omega

/-- A numeral opens with a digit or a point. -/
theorem exists_text_eq_cons {n : Numeral} (hn : n.Valid) :
    ∃ c cs, n.text = c :: cs ∧ (c.isDigit ∨ c = '.') := by
  obtain ⟨whole, fraction, exponent⟩ := n
  cases whole with
  | cons d ds => exact ⟨d, _, rfl, .inl (hn.whole d List.mem_cons_self)⟩
  | nil =>
    cases fraction with
    | none => simpa using hn.digit
    | some fraction => exact ⟨'.', _, rfl, .inr rfl⟩

/-- What opens a numeral has no other form in lower case. -/
theorem toLower_of_opens {c : Char} (hc : c.isDigit ∨ c = '.') : c.toLower = c := by
  rcases hc with hc | rfl
  · rw [Char.isDigit_iff_toNat] at hc
    refine Char.toLower_eq_of_not_isUpper ?_
    simp only [Char.isUpper, decide_eq_true_eq, not_and]
    intro hle
    have hupper : 65 ≤ c.toNat := hle
    have hdigit : c.toNat ≤ 57 := hc.2
    omega
  · rfl

/-- A well-formed numeral is read as its value. -/
theorem parseUnsigned?_text {n : Numeral} (hn : n.Valid) :
    Binary64.parseUnsigned? n.text = some n.value := by
  obtain ⟨c, cs, htext, hc⟩ := exists_text_eq_cons hn
  have hword : c ≠ 'i' ∧ c ≠ 'n' := by
    constructor <;> rintro rfl <;> simp at hc
  simp only [Binary64.parseUnsigned?, scan?_text hn]
  rw [if_neg, if_neg]
  · simp [htext, toLower_of_opens hc, hword]
  · simp [htext, toLower_of_opens hc, hword]

/-- **Every numeral is read**, to its value, as a free-standing number text. -/
theorem parse?_text {n : Numeral} (hn : n.Valid) :
    Binary64.parse? (String.ofList n.text) = some n.value := by
  obtain ⟨c, cs, htext, hc⟩ := exists_text_eq_cons hn
  have hsign : c ≠ '-' ∧ c ≠ '+' := by
    constructor <;> rintro rfl <;> simp at hc
  rw [Binary64.parse?, String.toList_ofList]
  split
  · next heq => simp [htext, hsign] at heq
  · next heq => simp [htext, hsign] at heq
  · exact parseUnsigned?_text hn

end Numeral

end Reckoner
