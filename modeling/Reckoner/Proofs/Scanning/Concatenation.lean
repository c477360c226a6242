import Mathlib
import Reckoner.Formula
import Reckoner.Proofs.Scanning.Delimiters

/-!
# Scanning Across Blanks

Two texts with blanks between them are scanned one after the other. A blank ends every token just as
the end of a text does, so the first text is gone through as it is by itself, up to the place where
it is stuck, if it is; the blanks are skipped; and the second one is gone through as it is by
itself, at a place further on.

Main definition: `Lexeme.shift`, a lexeme at a place further on.

Main results:

* `Reached.append_right`, `Stuck.append_right`: a place is reached, and text is stuck, whatever
  follows a delimiter;
* `Reached.scanFrom_add`: scanning does not depend on where a text starts, but for the places;
* `scan_across_blanks`: the outcome of scanning two texts with blanks between them.
-/

namespace Reckoner

/-- The same lexeme, `n` bytes further on. -/
def Lexeme.shift (n : Nat) (l : Lexeme) : Lexeme :=
  { l with start := n + l.start }

section

variable {text before gap after rest : List Char} {lexemes : List Lexeme}

/-! ### More text behind -/

/-- **What is apart from a text has no part in how its places are reached.** -/
theorem Reached.append_right (h : Reached text before lexemes after) (hrest : Apart rest) :
    Reached (text ++ rest) before lexemes (after ++ rest) := by
  induction h with
  | start => exact .start
  | blank _ hc ih => exact ih.blank hc
  | @token before lexemes t w after _ hlongest ih =>
    have hsame : SameUpToDelimiter after (after ++ rest) :=
      ⟨after, [], rest, (List.append_nil _).symm, rfl, hrest⟩
    rw [List.append_assoc] at ih
    exact ih.token (hlongest.of_sameUpToDelimiter hsame)

/-- Nor does it help where text is stuck. -/
theorem Stuck.append_right {c : Char} (h : Stuck (c :: text)) (hrest : Apart rest) :
    Stuck (c :: text ++ rest) :=
  ⟨h.1, fun t w hs hw => h.2 t w hs (hs.isPrefix_of_apart (List.cons_ne_nil c text) hrest hw)⟩

/-- Blanks are skipped. -/
theorem Reached.skip (h : Reached text before lexemes (gap ++ after))
    (hgap : ∀ c ∈ gap, isBlank c) :
    Reached text (before ++ gap) lexemes after := by
  induction gap generalizing before with
  | nil => rwa [List.append_nil]
  | cons c gap ih =>
    obtain ⟨hc, hgap⟩ := List.forall_mem_cons.1 hgap
    have hnext := ih (h.blank hc) hgap
    rwa [List.append_assoc] at hnext

/-! ### Places further on -/

/-- **Scanning does not depend on where a text starts**: what is emitted up to a place is only
further on. -/
theorem Reached.scanFrom_add (h : Reached text before lexemes after) (n : Nat) :
    scanFrom n text =
      (scanFrom (n + byteSize before) after).map (lexemes.map (Lexeme.shift n) ++ ·) := by
  induction h with
  | start =>
    rw [byteSize_nil, Nat.add_zero]
    cases scanFrom n text <;> rfl
  | blank _ hc ih =>
    rw [ih, scanFrom_blank hc, byteSize_append, byteSize_cons, byteSize_nil, Nat.add_zero,
      Nat.add_assoc]
  | @token before lexemes t w after _ hlongest ih =>
    rw [ih, scanFrom_token hlongest, byteSize_append, Nat.add_assoc]
    cases scanFrom (n + (byteSize before + byteSize w)) after with
    | error err => rfl
    | ok ls => simp [Except.map, Lexeme.shift]

end

section

variable {formula : String} (n : Nat)

/-- From another offset, the same tokens are found, shifted by it. -/
theorem scanFrom_of_scan_eq_ok {lexemes : List Lexeme} (h : scan formula = .ok lexemes) :
    scanFrom n formula.toList = .ok (lexemes.map (Lexeme.shift n)) := by
  obtain ⟨spans, hreached, rfl⟩ := scan_eq_ok_iff.1 h
  rw [hreached.scanFrom_add n, scanFrom_nil, byteSize_toList]
  simp [Except.map, Lexeme.shift]

/-- From another offset, the scanner is stuck at the same character, shifted by it. -/
theorem scanFrom_of_scan_eq_error {c : Char} {k : Nat}
    (h : scan formula = .error (.unexpectedChar c k)) :
    scanFrom n formula.toList = .error (.unexpectedChar c (n + k)) := by
  obtain ⟨before, spans, d, after, hreached, hstuck, herr⟩ := scan_eq_error_iff.1 h
  obtain ⟨rfl, rfl⟩ := FormulaError.unexpectedChar.inj herr
  rw [hreached.scanFrom_add n, scanFrom_stuck hstuck]
  rfl

end

/-! ### Two texts -/

/-- **Scanning goes across blanks.** Where the first of two texts with blanks between them cannot be
scanned by itself, the error is the same. Where it can, the error is that of the second text,
further on by the size of what is in front of it; and where both can, the lexemes are those of the
first one without its end, and those of the second one, further on as much. -/
theorem scan_across_blanks (a w b : String) (hblank : isBlankText w) (hne : w ≠ "") :
    (∀ err, scan a = .error err → scan (a ++ w ++ b) = .error err) ∧
    (∀ (lexemes : List Lexeme) (c : Char) (k : Nat), scan a = .ok lexemes →
      scan b = .error (.unexpectedChar c k) →
        scan (a ++ w ++ b) =
          .error (.unexpectedChar c (a.utf8ByteSize + w.utf8ByteSize + k))) ∧
    ∀ lexemes lexemes', scan a = .ok lexemes → scan b = .ok lexemes' →
      ∃ spans, lexemes = spans ++ [⟨.eof, "", a.utf8ByteSize⟩] ∧
        scan (a ++ w ++ b) =
          .ok (spans ++ lexemes'.map (Lexeme.shift (a.utf8ByteSize + w.utf8ByteSize))) := by
  have hgap : ∀ c ∈ w.toList, isBlank c := List.all_eq_true.1 hblank
  have hapart : Apart (w.toList ++ b.toList) := by
    obtain ⟨c, cs, hcs⟩ := List.exists_cons_of_ne_nil (mt String.toList_eq_nil_iff.1 hne)
    rw [hcs]
    exact (delimits_of_isBlank (hgap c (by simp [hcs]))).apart _
  have htext : (a ++ w ++ b).toList = a.toList ++ (w.toList ++ b.toList) := by simp
  -- Behind the first text and the blanks, the second text is left.
  have hbehind : ∀ spans, Reached a.toList a.toList spans [] → scan (a ++ w ++ b) =
      (scanFrom (a.utf8ByteSize + w.utf8ByteSize) b.toList).map (spans ++ ·) := by
    intro spans hreached
    have hfirst : Reached (a ++ w ++ b).toList a.toList spans (w.toList ++ b.toList) := by
      rw [htext]
      exact hreached.append_right hapart
    rw [scan, (hfirst.skip hgap).scanFrom_eq, byteSize_append, byteSize_toList, byteSize_toList]
  refine ⟨fun err ha => ?_, fun lexemes c k ha hb => ?_, fun lexemes lexemes' ha hb => ?_⟩
  · obtain ⟨before, spans, c, after, hreached, hstuck, rfl⟩ := scan_eq_error_iff.1 ha
    refine scan_eq_error_iff.2 ⟨before, spans, c, _, ?_, hstuck.append_right hapart, rfl⟩
    rw [htext]
    exact hreached.append_right hapart
  · obtain ⟨spans, hreached, -⟩ := scan_eq_ok_iff.1 ha
    rw [hbehind spans hreached, scanFrom_of_scan_eq_error _ hb]
    rfl
  · obtain ⟨spans, hreached, rfl⟩ := scan_eq_ok_iff.1 ha
    refine ⟨spans, rfl, ?_⟩
    rw [hbehind spans hreached, scanFrom_of_scan_eq_ok _ hb]
    rfl

/-- Texts that end where more would be a longer token, with a blank of three bytes behind them: an
asterisk, an exponent without digits, and a dollar sign by itself. -/
theorem scan_across_blanks_cut :
    isBlankText "\u3000" = true ∧ "\u3000" ≠ "" ∧
    scan "$\u3000x" = .error (.unexpectedChar '$' 0) ∧
    scan "2e+\u3000.5#" = .error (.unexpectedChar '#' 8) ∧
    ∃ spans, [⟨.operator .mul, "*", 0⟩, ⟨.eof, "", 1⟩] = spans ++ [(⟨.eof, "", 1⟩ : Lexeme)] ∧
      scan "*\u3000*x" = .ok (spans ++
        [⟨.operator .mul, "*", 4⟩, ⟨.name "x", "x", 5⟩, ⟨.eof, "", 6⟩]) := by
  have hdollar : scan "$" = .error (.unexpectedChar '$' 0) := by decide +kernel
  have hexponent : scan "2e+" = .ok [⟨.number (.ofInt 2), "2", 0⟩, ⟨.name "e", "e", 1⟩,
      ⟨.operator .add, "+", 2⟩, ⟨.eof, "", 3⟩] := by
    decide +kernel
  have hhash : scan ".5#" = .error (.unexpectedChar '#' 2) := by decide +kernel
  have hasterisk : scan "*" = .ok [⟨.operator .mul, "*", 0⟩, ⟨.eof, "", 1⟩] := by decide +kernel
  have hproduct :
      scan "*x" = .ok [⟨.operator .mul, "*", 0⟩, ⟨.name "x", "x", 1⟩, ⟨.eof, "", 2⟩] := by
    decide +kernel
  have hblank : isBlankText "\u3000" = true := by decide
  have hne : "\u3000" ≠ "" := by decide
  exact ⟨hblank, hne, (scan_across_blanks "$" _ "x" hblank hne).1 _ hdollar,
    (scan_across_blanks "2e+" _ ".5#" hblank hne).2.1 _ _ _ hexponent hhash,
    (scan_across_blanks "*" _ "*x" hblank hne).2.2 _ _ hasterisk hproduct⟩

end Reckoner
