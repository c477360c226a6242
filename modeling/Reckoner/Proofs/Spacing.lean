import Mathlib
import Reckoner.Proofs.Scanning.Delimiters
import Reckoner.Proofs.Scanning.Spans
import Reckoner.Proofs.Stages

/-!
# Spacing

How a formula is spaced out means nothing. The gaps between its lexemes may be replaced by any
blanks, as long as a gap between two tokens stays where there is one: then the formula is scanned to
the same tokens in the same spellings, at other places, and no later stage looks at places. A blank
ends every token, so what is behind a gap has no part in the token before it, and a gap that stays
empty is followed by what it was followed by, up to the next gap.

Main definitions:

* `gapsOf`: what a formula has before its lexemes, and `layOut`, lexemes with gaps before them;
* `Respaces`: the gaps that may be put in place of others;
* `LaidOut`: gaps between which each token is the longest one.

Main results:

* `Scanned.laidOut`, `LaidOut.exists_scanned`: a formula is its gaps and lexemes, and is scanned to
  them;
* `LaidOut.respace`: tokens stay the longest ones between other gaps;
* `spacing_is_irrelevant`: a formula with other gaps has the same outcome.
-/

namespace Reckoner

/-! ### Gaps -/

/-- A lexeme without its place. -/
def Lexeme.spelled (l : Lexeme) : Spelled :=
  ⟨l.token, l.spelling⟩

/-- What a formula has before each of its lexemes, from the byte offset `start` on. -/
def gapsFrom (formula : String) : (start : Nat) → (lexemes : List Lexeme) → List String
  | _, [] => []
  | start, l :: lexemes =>
    String.Pos.Raw.extract formula ⟨start⟩ ⟨l.start⟩ :: gapsFrom formula l.stop lexemes

/-- The **gaps** of a formula: what it has before its first lexeme, between two of them, and before
its end. -/
def gapsOf (formula : String) (lexemes : List Lexeme) : List String :=
  gapsFrom formula 0 lexemes

/-- The text of lexemes with a gap before each of them. -/
def layOut : (gaps : List String) → (lexemes : List Lexeme) → String
  | gap :: gaps, l :: lexemes => gap ++ l.spelling ++ layOut gaps lexemes
  | _, _ => ""

/-- The gap before the end of a formula. -/
theorem layOut_eof (gap : String) (start : Nat) : layOut [gap] [⟨.eof, "", start⟩] = gap := by
  simp [layOut]

/-- A lexeme stands behind its gap and in front of the others. -/
theorem toList_layOut_cons (gap : String) (gaps : List String) (l : Lexeme)
    (lexemes : List Lexeme) :
    (layOut (gap :: gaps) (l :: lexemes)).toList =
      gap.toList ++ (l.spelling.toList ++ (layOut gaps lexemes).toList) := by
  simp [layOut]

/-- Gaps that may be put in place of others: as many, all of them blank, and none of them empty that
was not, but for the first one and the last one. -/
structure Respaces (old new : List String) : Prop where
  length_eq : new.length = old.length
  blank : ∀ gap ∈ new, isBlankText gap
  stays : ∀ i, 0 < i → i + 1 < new.length → new[i]? = some "" → old[i]? = some ""

/-- Behind the first gap, gaps are respaced as well. -/
theorem Respaces.tail {gap gap' : String} {old new : List String}
    (h : Respaces (gap :: old) (gap' :: new)) : Respaces old new where
  length_eq := Nat.succ.inj h.length_eq
  blank := fun g hg => h.blank g (List.mem_cons_of_mem gap' hg)
  stays := fun i _ hi hempty => h.stays (i + 1) i.succ_pos (Nat.succ_lt_succ hi) hempty

/-! ### Blanks end tokens -/

/-- A gap with what follows it is apart from what is in front of it, unless the gap is empty and
something follows. -/
theorem apart_of_isBlankText {gap : String} {rest : List Char} (hgap : isBlankText gap)
    (h : gap = "" → rest = []) : Apart (gap.toList ++ rest) := by
  cases htext : gap.toList with
  | nil =>
    rw [h (String.toList_eq_nil_iff.1 htext)]
    simp [Apart]
  | cons c cs =>
    have hc : isBlank c := List.all_eq_true.1 hgap c (by simp [htext])
    exact (delimits_of_isBlank hc).apart (cs ++ rest)

/-! ### Tokens between gaps -/

/-- Lexemes are **laid out** between gaps: the gaps are blank, and each token is the longest one at
the front of what follows its gap. -/
inductive LaidOut : (gaps : List String) → (lexemes : List Lexeme) → Prop
  | done {gap : String} (start : Nat) : isBlankText gap → LaidOut [gap] [⟨.eof, "", start⟩]
  | token {gap : String} {gaps : List String} {l : Lexeme} {lexemes : List Lexeme} :
      isBlankText gap →
      Longest l.token l.spelling.toList (l.spelling.toList ++ (layOut gaps lexemes).toList) →
      LaidOut gaps lexemes → LaidOut (gap :: gaps) (l :: lexemes)

/-- There is at least one gap, that in front of the end. -/
theorem LaidOut.length_pos {gaps : List String} {lexemes : List Lexeme} (h : LaidOut gaps lexemes) :
    0 < gaps.length := by
  cases h <;> exact Nat.succ_pos _

/-- **What is laid out is scanned** to its tokens in their spellings, wherever it stands. -/
theorem LaidOut.exists_scanned {gaps : List String} {lexemes : List Lexeme}
    (h : LaidOut gaps lexemes) (offset : Nat) :
    ∃ ls, Scanned offset (layOut gaps lexemes).toList ls ∧
      ls.map Lexeme.spelled = lexemes.map Lexeme.spelled := by
  induction h generalizing offset with
  | @done gap start hgap =>
    refine ⟨[⟨.eof, "", offset + byteSize gap.toList⟩], ?_, rfl⟩
    rw [layOut_eof]
    exact scanned_of_isBlank (List.all_eq_true.1 hgap) offset
  | @token gap gaps l lexemes hgap hlongest _ ih =>
    obtain ⟨ls, hls, hspelled⟩ :=
      ih (offset + byteSize gap.toList + byteSize l.spelling.toList)
    refine ⟨⟨l.token, l.spelling, offset + byteSize gap.toList⟩ :: ls, ?_,
      congrArg (l.spelled :: ·) hspelled⟩
    have hscanned := Scanned.skip (List.all_eq_true.1 hgap) (.token hlongest hls)
    rw [String.ofList_toList] at hscanned
    rw [toList_layOut_cons]
    exact hscanned

section

variable {formula : String} {offset : Nat} {before gap text : List Char} {lexemes : List Lexeme}

/-- **What is scanned is laid out** between its gaps: the text from a place on, where `gap` is what
was skipped since the last lexeme. -/
theorem Scanned.laidOut (h : Scanned offset text lexemes)
    (hformula : formula.toList = before ++ gap ++ text)
    (hoffset : offset = byteSize (before ++ gap)) (hgap : ∀ c ∈ gap, isBlank c) :
    LaidOut (gapsFrom formula (byteSize before) lexemes) lexemes ∧
      (layOut (gapsFrom formula (byteSize before) lexemes) lexemes).toList = gap ++ text := by
  -- Induction on the scan: `before` ends with the last token, and `gap` has been skipped since.
  induction h generalizing before gap with
  | done offset =>
    have hextract := toList_extract_gap hformula
    rw [gapsFrom, gapsFrom, hoffset]
    refine ⟨.done _ ?_, ?_⟩
    · rwa [isBlankText, hextract, List.all_eq_true]
    · rw [layOut_eof, hextract, List.append_nil]
  | @blank offset c text lexemes hc _ ih =>
    have hformula' : formula.toList = before ++ (gap ++ [c]) ++ text := by simp [hformula]
    have hoffset' : offset + c.utf8Size = byteSize (before ++ (gap ++ [c])) := by
      simp [hoffset, Nat.add_assoc]
    have hgap' : ∀ d ∈ gap ++ [c], isBlank d := by
      simpa [or_imp, forall_and, hc] using hgap
    simpa using ih hformula' hoffset' hgap'
  | @token offset t w text lexemes hlongest _ ih =>
    have hextract := toList_extract_gap hformula
    have hformula' : formula.toList = (before ++ gap ++ w) ++ [] ++ text := by simp [hformula]
    have hstop : offset + byteSize w = byteSize ((before ++ gap ++ w) ++ []) := by
      simp [hoffset, Nat.add_assoc]
    obtain ⟨hlaid, htext⟩ := ih hformula' hstop (by simp)
    rw [List.append_nil] at hstop
    rw [gapsFrom, stop_ofList, hstop, hoffset]
    refine ⟨.token ?_ ?_ hlaid, ?_⟩
    · rwa [isBlankText, hextract, List.all_eq_true]
    · rwa [String.toList_ofList, htext]
    · rw [toList_layOut_cons, hextract, String.toList_ofList, htext, List.nil_append]

end

/-- **Tokens stay the longest ones between other gaps.** If the first gap stays as well, the text is
the same up to a delimiter. -/
theorem LaidOut.respace {gaps gaps' : List String} {lexemes : List Lexeme}
    (h : LaidOut gaps lexemes)
    (hgaps : Respaces gaps gaps') :
    LaidOut gaps' lexemes ∧
      ((1 < gaps'.length → gaps'[0]? = some "" → gaps[0]? = some "") →
        SameUpToDelimiter (layOut gaps lexemes).toList (layOut gaps' lexemes).toList) := by
  induction h generalizing gaps' with
  | @done gap start hgap =>
    obtain ⟨gap', rfl⟩ := List.length_eq_one_iff.1 hgaps.length_eq
    have hgap' := hgaps.blank gap' List.mem_cons_self
    refine ⟨.done start hgap', fun _ => .of_apart ?_ _⟩
    rw [layOut_eof, ← List.append_nil gap'.toList]
    exact apart_of_isBlankText hgap' fun _ => rfl
  | @token gap gaps l lexemes hgap hlongest _ ih =>
    obtain ⟨gap', gaps', rfl⟩ := List.exists_cons_of_length_eq_add_one hgaps.length_eq
    obtain ⟨hlaid, hsame⟩ := ih hgaps.tail
    have hgap' := hgaps.blank gap' List.mem_cons_self
    -- The gap behind the token is the first one of the texts that follow it.
    have htext := hsame fun hlength => hgaps.stays 1 Nat.one_pos (Nat.succ_lt_succ hlength)
    refine ⟨.token hgap' (hlongest.of_sameUpToDelimiter htext) hlaid, fun hfirst => ?_⟩
    rw [toList_layOut_cons, toList_layOut_cons]
    by_cases hempty : gap' = ""
    · -- Both texts open with the token.
      have hpos : 1 < (gap' :: gaps').length := Nat.succ_lt_succ hlaid.length_pos
      obtain rfl : gap = "" := Option.some.inj (hfirst hpos (congrArg some hempty))
      rw [hempty]
      exact htext.append_left _
    · exact .of_apart (apart_of_isBlankText hgap' fun h => absurd h hempty) _

/-! ### Formulas -/

section

variable {formula : String} {lexemes : List Lexeme} {gaps : List String}

/-- The gaps and lexemes of a formula are the formula. -/
theorem laidOut_gapsOf (h : scan formula = .ok lexemes) :
    LaidOut (gapsOf formula lexemes) lexemes ∧
      layOut (gapsOf formula lexemes) lexemes = formula := by
  have hformula : formula.toList = [] ++ [] ++ formula.toList := rfl
  obtain ⟨hlaid, htext⟩ := (scanFrom_eq_ok_iff.1 h).laidOut hformula rfl (by simp)
  exact ⟨hlaid, String.toList_inj.1 htext⟩

/-- What is laid out is scanned to its tokens in their spellings. -/
theorem LaidOut.exists_scan (h : LaidOut gaps lexemes) :
    ∃ ls, scan (layOut gaps lexemes) = .ok ls ∧
      ls.map Lexeme.spelled = lexemes.map Lexeme.spelled := by
  obtain ⟨ls, hls, hspelled⟩ := h.exists_scanned 0
  exact ⟨ls, hls.scanFrom_eq, hspelled⟩

/-- Blank text has no token but its end. -/
theorem isBlankText_eq_true_iff (h : scan formula = .ok lexemes) :
    isBlankText formula = true ↔ lexemes.map Lexeme.spelled = [⟨.eof, ""⟩] := by
  constructor
  · intro hblank
    have hscanned := scanned_of_isBlank (List.all_eq_true.1 hblank) 0
    rw [Except.ok.inj (h.symm.trans hscanned.scanFrom_eq)]
    rfl
  · intro hspelled
    obtain ⟨l, rfl, -⟩ := List.map_eq_singleton_iff.1 hspelled
    obtain ⟨hlaid, hformula⟩ := laidOut_gapsOf h
    generalize gapsOf formula [l] = gaps at hlaid hformula
    cases hlaid with
    | done _ hgap =>
      rw [← hformula, layOut_eof]
      exact hgap
    | token _ _ hnone => cases hnone

/-- Lexemes that are the same but for their places have the same tokens. -/
theorem map_token_congr {lexemes' : List Lexeme}
    (h : lexemes'.map Lexeme.spelled = lexemes.map Lexeme.spelled) :
    lexemes'.map Lexeme.token = lexemes.map Lexeme.token := by
  have htokens := congrArg (List.map Spelled.token) h
  rwa [List.map_map, List.map_map] at htokens

/-- The parser is given the same tokens in the same spellings. -/
theorem spell_congr {lexemes' : List Lexeme}
    (h : lexemes'.map Lexeme.spelled = lexemes.map Lexeme.spelled) (tokens : List Token) :
    spell tokens lexemes' = spell tokens lexemes := by
  have hspell := congrArg (List.zipWith (fun t s => (⟨t, s.spelling⟩ : Spelled)) tokens) h
  rwa [List.zipWith_map_right, List.zipWith_map_right] at hspell

/-- **No stage looks at places**: formulas with the same tokens in the same spellings have the same
outcome. -/
theorem evaluate_congr {formula' : String} {lexemes' : List Lexeme} (h : scan formula = .ok lexemes)
    (h' : scan formula' = .ok lexemes')
    (hspelled : lexemes'.map Lexeme.spelled = lexemes.map Lexeme.spelled) {limits : Limits}
    (hlength : formula.length ≤ limits.maxLength) (hlength' : formula'.length ≤ limits.maxLength)
    (args : List Binary64) : evaluate limits formula' args = evaluate limits formula args := by
  have hblank : isBlankText formula' = isBlankText formula := by
    rw [Bool.eq_iff_iff, isBlankText_eq_true_iff h, isBlankText_eq_true_iff h', hspelled]
  cases hformula : isBlankText formula with
  | true =>
    rw [evaluate_of_isBlankText hformula, evaluate_of_isBlankText (hblank.trans hformula)]
  | false =>
    rw [evaluate_of_length_le hformula hlength,
      evaluate_of_length_le (hblank.trans hformula) hlength', h, h', ok_bind, ok_bind,
      map_token_congr hspelled]
    simp only [spell_congr hspelled]

end

/-- **Spacing is irrelevant.** A formula that is scanned is its lexemes with its gaps between them.
With any blanks for its gaps, where only the first one and the last one may become empty, it is
scanned to the same tokens in the same spellings, and has the same value or fails with the same
error, whatever the arguments and the limits are, as long as neither is too long. -/
theorem spacing_is_irrelevant (formula : String) (lexemes : List Lexeme) (gaps : List String)
    (hscan : scan formula = .ok lexemes) (hgaps : Respaces (gapsOf formula lexemes) gaps) :
    layOut (gapsOf formula lexemes) lexemes = formula ∧
    (∃ ls, scan (layOut gaps lexemes) = .ok ls ∧
      ls.map Lexeme.spelled = lexemes.map Lexeme.spelled) ∧
    ∀ (limits : Limits) (args : List Binary64), formula.length ≤ limits.maxLength →
      (layOut gaps lexemes).length ≤ limits.maxLength →
      evaluate limits (layOut gaps lexemes) args = evaluate limits formula args := by
  obtain ⟨hlaid, hformula⟩ := laidOut_gapsOf hscan
  obtain ⟨ls, hls, hspelled⟩ := (hlaid.respace hgaps).1.exists_scan
  exact ⟨hformula, ⟨ls, hls, hspelled⟩, fun limits args hlength hlength' =>
    evaluate_congr hscan hls hspelled hlength hlength' args⟩

/-- Two asterisks apart, with blanks of one byte and of three bytes: without the gap between them
they are a power sign. -/
theorem spacing_is_irrelevant_asterisks :
    evaluate {} "2* *3" [] = .error (.grammar (.operandExpected "*")) ∧
    evaluate {} "\u30002\t*\u3000*3 " [] = .error (.grammar (.operandExpected "*")) ∧
    evaluate {} "2**3" [] = .ok (.ofInt 8) := by
  have hfails : evaluate {} "2* *3" [] = .error (.grammar (.operandExpected "*")) := by
    decide +kernel
  have hscan : scan "2* *3" = .ok [⟨.number (.ofInt 2), "2", 0⟩, ⟨.operator .mul, "*", 1⟩,
      ⟨.operator .mul, "*", 3⟩, ⟨.number (.ofInt 3), "3", 4⟩, ⟨.eof, "", 5⟩] := by
    decide +kernel
  have hold : gapsOf "2* *3" [⟨.number (.ofInt 2), "2", 0⟩, ⟨.operator .mul, "*", 1⟩,
      ⟨.operator .mul, "*", 3⟩, ⟨.number (.ofInt 3), "3", 4⟩, ⟨.eof, "", 5⟩] =
      ["", "", " ", "", ""] := by
    decide +kernel
  have hgaps : Respaces ["", "", " ", "", ""] ["\u3000", "\t", "\u3000", "", " "] := by
    refine ⟨rfl, by decide, fun i hpos hlt hempty => ?_⟩
    have hi : i < 4 := Nat.lt_of_succ_lt_succ hlt
    interval_cases i <;> simp at hempty ⊢
  have htext : layOut ["\u3000", "\t", "\u3000", "", " "] [⟨.number (.ofInt 2), "2", 0⟩,
      ⟨.operator .mul, "*", 1⟩, ⟨.operator .mul, "*", 3⟩, ⟨.number (.ofInt 3), "3", 4⟩,
      ⟨.eof, "", 5⟩] = "\u30002\t*\u3000*3 " := by
    decide +kernel
  obtain ⟨-, -, hsame⟩ := spacing_is_irrelevant _ _ _ hscan (hold ▸ hgaps)
  have hlaid := hsame {} [] (by decide) (by rw [htext]; decide)
  rw [htext, hfails] at hlaid
  exact ⟨hfails, hlaid, by decide +kernel⟩

end Reckoner
