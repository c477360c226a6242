import Mathlib
import Reckoner.Proofs.Scanning.LongestMatch

/-!
# Spans

The lexemes of a formula, taken as spans of bytes, follow each other without overlap, and what they
leave out is blank: no part of a formula is lost, and none is counted twice. What a span means is
settled by its own text alone.

Main definitions:

* `Lexeme.Covers`: a byte is in the span of a lexeme;
* `ByteOf`: a byte is one of a character of a text;
* `Lexeme.SpanOf`: a lexeme is a span of a formula.

Main results:

* `Reached.pairwise_stop_le_start`: spans follow each other;
* `Reached.exists_byteOf`: a byte is in a span exactly if its character is not blank;
* `Longest.scan_eq`: a span by itself is scanned to its token;
* `scan_spans_partition`: all of it, for the lexemes of a formula.
-/

namespace Reckoner

/-- The byte at the offset `i` is in the span of a lexeme. -/
def Lexeme.Covers (l : Lexeme) (i : Nat) : Prop :=
  l.start ≤ i ∧ i < l.stop

/-- In the text `text`, the byte at the offset `i` is one of the character `c`. -/
def ByteOf (text : List Char) (c : Char) (i : Nat) : Prop :=
  ∃ pre post, text = pre ++ c :: post ∧ byteSize pre ≤ i ∧ i < byteSize pre + c.utf8Size

/-- A lexeme is a **span** of a formula: a part of it between characters that is not empty, has no
blank in it, and is scanned by itself to the same token. -/
structure Lexeme.SpanOf (formula : String) (l : Lexeme) : Prop where
  ne_eof : l.token ≠ .eof
  start_lt_stop : l.start < l.stop
  isValid_start : String.Pos.Raw.IsValid formula ⟨l.start⟩
  isValid_stop : String.Pos.Raw.IsValid formula ⟨l.stop⟩
  extract_eq : String.Pos.Raw.extract formula ⟨l.start⟩ ⟨l.stop⟩ = l.spelling
  isBlank_eq_false : ∀ c ∈ l.spelling.toList, isBlank c = false
  scan_eq : scan l.spelling = .ok [⟨l.token, l.spelling, 0⟩, ⟨.eof, "", l.stop - l.start⟩]

/-! ### Bytes and their characters -/

/-- Every byte of a text is one of a character. -/
theorem exists_byteOf {text : List Char} {i : Nat} (h : i < byteSize text) :
    ∃ c ∈ text, ByteOf text c i := by
  induction text generalizing i with
  | nil => exact absurd h (Nat.not_lt_zero i)
  | cons c cs ih =>
    by_cases hi : i < c.utf8Size
    · exact ⟨c, List.mem_cons_self, [], cs, rfl, Nat.zero_le i, by simpa using hi⟩
    · rw [byteSize_cons] at h
      obtain ⟨d, hd, pre, post, rfl, hle, hlt⟩ := ih (i := i - c.utf8Size) (by omega)
      refine ⟨d, List.mem_cons_of_mem c hd, c :: pre, post, rfl, ?_, ?_⟩
      · rw [byteSize_cons]
        omega
      · rw [byteSize_cons]
        omega

/-- A byte of a character stays where it is, whatever follows. -/
theorem ByteOf.append_right {text : List Char} {c : Char} {i : Nat} (h : ByteOf text c i)
    (rest : List Char) : ByteOf (text ++ rest) c i := by
  obtain ⟨pre, post, rfl, hle, hlt⟩ := h
  exact ⟨pre, post ++ rest, by simp, hle, hlt⟩

/-- A byte of a character moves by what is put in front. -/
theorem ByteOf.append_left {text : List Char} {c : Char} {i : Nat} (h : ByteOf text c i)
    (front : List Char) : ByteOf (front ++ text) c (byteSize front + i) := by
  obtain ⟨pre, post, rfl, hle, hlt⟩ := h
  refine ⟨front ++ pre, post, by simp, ?_, ?_⟩
  · rw [byteSize_append]
    omega
  · rw [byteSize_append]
    omega

/-! ### The place of a span -/

/-- A lexeme ends as many bytes behind its start as its spelling has. -/
theorem Lexeme.stop_eq (l : Lexeme) : l.stop = l.start + byteSize l.spelling.toList := by
  rw [Lexeme.stop, byteSize_toList]

/-- A lexeme ends as many bytes behind its start as the characters have that spell it. -/
theorem stop_ofList (t : Token) (w : List Char) (start : Nat) :
    (⟨t, String.ofList w, start⟩ : Lexeme).stop = start + byteSize w := by
  rw [Lexeme.stop_eq, String.toList_ofList]

/-- A place between characters is one of a formula. -/
theorem isValid_byteSize {formula : String} {pre post : List Char}
    (h : formula.toList = pre ++ post) : String.Pos.Raw.IsValid formula ⟨byteSize pre⟩ := by
  refine String.Pos.Raw.isValid_iff_exists_append.2 ⟨String.ofList pre, String.ofList post, ?_, ?_⟩
  · rw [← String.ofList_append, ← h, String.ofList_toList]
  · rw [String.Pos.Raw.ext_iff, String.byteIdx_rawEndPos, ← byteSize_toList, String.toList_ofList]

/-- The part of a formula between two places. -/
theorem extract_byteSize {formula : String} {pre w post : List Char}
    (h : formula.toList = pre ++ w ++ post) :
    String.Pos.Raw.extract formula ⟨byteSize pre⟩ ⟨byteSize pre + byteSize w⟩ =
      String.ofList w := by
  rw [← String.ofList_toList (s := formula), h, byteSize_eq_utf8Len, byteSize_eq_utf8Len]
  exact String.extract_of_valid pre w post

/-- What is skipped between two places. -/
theorem toList_extract_gap {formula : String} {before gap text : List Char}
    (hformula : formula.toList = before ++ gap ++ text) :
    (String.Pos.Raw.extract formula ⟨byteSize before⟩ ⟨byteSize (before ++ gap)⟩).toList = gap := by
  rw [byteSize_append, extract_byteSize hformula, String.toList_ofList]

/-- No characters spell the end of the formula. -/
theorem Spells.ne_eof {t : Token} {w : List Char} (h : Spells t w) : t ≠ .eof := by
  cases h <;> exact Token.noConfusion

/-- **What a span means is settled by its own text alone**: the longest token of a text is scanned
by itself to the same token. -/
theorem Longest.scan_eq {t : Token} {w text : List Char} (h : Longest t w text) :
    scan (String.ofList w) = .ok [⟨t, String.ofList w, 0⟩, ⟨.eof, "", byteSize w⟩] := by
  have halone : Longest t w (w ++ []) :=
    h.cut (List.prefix_append w []) (by simpa using h.isPrefix)
  have hreached : Reached (w ++ []) ([] ++ w) ([] ++ [⟨t, String.ofList w, byteSize []⟩]) [] :=
    .token .start halone
  simpa using hreached.scan_before

namespace Reached

variable {text before after : List Char} {lexemes : List Lexeme}

/-- Spans end where scanning has arrived, or before. -/
theorem stop_le_of_mem (h : Reached text before lexemes after) {l : Lexeme} (hl : l ∈ lexemes) :
    l.stop ≤ byteSize before := by
  induction h with
  | start => cases hl
  | blank _ _ ih =>
    have := ih hl
    rw [byteSize_append]
    omega
  | token _ _ ih =>
    rw [byteSize_append]
    rcases List.mem_append.1 hl with hl | hl
    · have := ih hl
      omega
    · rw [List.mem_singleton.1 hl, stop_ofList]

/-- **Spans follow each other** without overlap. -/
theorem pairwise_stop_le_start (h : Reached text before lexemes after) :
    lexemes.Pairwise fun l l' => l.stop ≤ l'.start := by
  induction h with
  | start => exact .nil
  | blank _ _ ih => exact ih
  | token hreached _ ih =>
    refine List.pairwise_append.2 ⟨ih, List.pairwise_singleton _ _, fun l hl l' hl' => ?_⟩
    rw [List.mem_singleton.1 hl']
    exact hreached.stop_le_of_mem hl

/-- There are no more spans than characters. -/
theorem length_le (h : Reached text before lexemes after) : lexemes.length ≤ before.length := by
  induction h with
  | start => exact le_rfl
  | blank _ _ ih =>
    rw [List.length_append]
    omega
  | token _ hlongest ih =>
    have hpos := List.length_pos_iff.2 hlongest.spells.ne_nil
    rw [List.length_append, List.length_append, List.length_singleton]
    omega

/-- **A byte is in a span exactly if its character is not blank**: nothing but blanks is left
out. -/
theorem exists_byteOf (h : Reached text before lexemes after) {i : Nat}
    (hi : i < byteSize before) :
    ∃ c, ByteOf before c i ∧ ((∃ l ∈ lexemes, l.Covers i) ↔ isBlank c = false) := by
  induction h with
  | start => exact absurd hi (Nat.not_lt_zero i)
  | @blank before lexemes c after hreached hc ih =>
    by_cases hbefore : i < byteSize before
    · obtain ⟨d, hd, hcovers⟩ := ih hbefore
      exact ⟨d, hd.append_right _, hcovers⟩
    · -- All spans end before the blank.
      rw [byteSize_append, byteSize_cons, byteSize_nil] at hi
      refine ⟨c, ⟨before, [], rfl, by omega, by omega⟩, iff_of_false ?_ (by simp [hc])⟩
      rintro ⟨l, hl, -, hlt⟩
      have := hreached.stop_le_of_mem hl
      omega
  | @token before lexemes t w after hreached hlongest ih =>
    by_cases hbefore : i < byteSize before
    · -- The new span starts behind the byte.
      obtain ⟨d, hd, hcovers⟩ := ih hbefore
      refine ⟨d, hd.append_right _, ?_⟩
      rw [← hcovers]
      constructor
      · rintro ⟨l, hl, hle, hlt⟩
        rcases List.mem_append.1 hl with hl | hl
        · exact ⟨l, hl, hle, hlt⟩
        · rw [List.mem_singleton.1 hl] at hle
          exact absurd hle (by dsimp only; omega)
      · rintro ⟨l, hl, hcovers⟩
        exact ⟨l, List.mem_append_left _ hl, hcovers⟩
    · rw [byteSize_append] at hi
      obtain ⟨c, hc, hbyte⟩ :=
        Reckoner.exists_byteOf (by omega : i - byteSize before < byteSize w)
      refine ⟨c, ?_, iff_of_true ⟨_, List.mem_append_right _ (List.mem_singleton_self _), ?_, ?_⟩
        (hlongest.spells.isBlank_eq_false c hc)⟩
      · have := hbyte.append_left before
        rwa [Nat.add_sub_of_le (by omega)] at this
      · dsimp only
        omega
      · rw [stop_ofList]
        omega

end Reached

/-- What is emitted is a span of the formula. -/
theorem Reached.spanOf_of_mem {formula : String} {before after : List Char} {lexemes : List Lexeme}
    (h : Reached formula.toList before lexemes after) {l : Lexeme} (hl : l ∈ lexemes) :
    l.SpanOf formula := by
  obtain ⟨pre, rest, htext, hstart, hlongest⟩ := h.longest_of_mem hl
  obtain ⟨post, rfl⟩ := hlongest.isPrefix
  rw [← List.append_assoc] at htext
  have hsize : 0 < byteSize l.spelling.toList :=
    (List.length_pos_iff.2 hlongest.spells.ne_nil).trans_le (length_le_byteSize _)
  have hstop : l.stop = byteSize pre + byteSize l.spelling.toList := by
    rw [l.stop_eq, hstart]
  refine ⟨hlongest.spells.ne_eof, by omega, ?_, ?_, ?_, hlongest.spells.isBlank_eq_false, ?_⟩
  · rw [← hstart]
    exact isValid_byteSize (htext.symm.trans (List.append_assoc _ _ _))
  · rw [hstop, ← byteSize_append]
    exact isValid_byteSize htext.symm
  · rw [hstop, ← hstart, extract_byteSize htext.symm, String.ofList_toList]
  · rw [hstop, hstart, Nat.add_sub_cancel_left]
    simpa using hlongest.scan_eq

/-- **Spans partition a formula.** The lexemes of a formula close with its end, an empty span behind
the last character, and all others are spans of the formula that are not empty and have no blank in
them. They follow each other, a byte of the formula is in one of them exactly if its character is
not blank, and there are no more of them than characters, and one for the end. -/
theorem scan_spans_partition (formula : String) (ls : List Lexeme) (h : scan formula = .ok ls) :
    (∃ lexemes, ls = lexemes ++ [⟨.eof, "", formula.utf8ByteSize⟩] ∧
      ∀ l ∈ lexemes, l.SpanOf formula) ∧
    ls.Pairwise (fun l l' => l.stop ≤ l'.start) ∧
    (∀ i < formula.utf8ByteSize, ∃ c, ByteOf formula.toList c i ∧
      ((∃ l ∈ ls, l.Covers i) ↔ isBlank c = false)) ∧
    ls.length ≤ formula.length + 1 := by
  obtain ⟨lexemes, hreached, rfl⟩ := scan_eq_ok_iff.1 h
  refine ⟨⟨lexemes, rfl, fun l hl => hreached.spanOf_of_mem hl⟩, ?_, fun i hi => ?_, ?_⟩
  · refine List.pairwise_append.2
      ⟨hreached.pairwise_stop_le_start, List.pairwise_singleton _ _, fun l hl l' hl' => ?_⟩
    rw [List.mem_singleton.1 hl', ← byteSize_toList]
    exact hreached.stop_le_of_mem hl
  · rw [← byteSize_toList] at hi
    obtain ⟨c, hc, hcovers⟩ := hreached.exists_byteOf hi
    refine ⟨c, hc, ?_⟩
    rw [← hcovers]
    -- The end of the formula is empty and covers no byte.
    simp [Lexeme.Covers, Lexeme.stop, or_and_right, exists_or]
  · have := hreached.length_le
    rw [List.length_append, List.length_singleton, ← String.length_toList]
    omega

/-- Blanks of three bytes and of one, two numerals without a blank between them, and a power sign of
two characters. -/
theorem scan_spans_partition_blanks :
    ∃ ls, scan "\u3000 0..0 **$b" = .ok ls ∧
      ls = [⟨.number (.zero false), "0.", 4⟩, ⟨.number (.zero false), ".0", 6⟩,
        ⟨.operator .pow, "**", 9⟩, ⟨.placeholder "b", "$b", 11⟩, ⟨.eof, "", 13⟩] ∧
      ls.Pairwise (fun l l' => l.stop ≤ l'.start) ∧
      ∀ i < 13, ∃ c, ByteOf "\u3000 0..0 **$b".toList c i ∧
        ((∃ l ∈ ls, l.Covers i) ↔ isBlank c = false) := by
  have hscan : scan "\u3000 0..0 **$b" =
      .ok [⟨.number (.zero false), "0.", 4⟩, ⟨.number (.zero false), ".0", 6⟩,
        ⟨.operator .pow, "**", 9⟩, ⟨.placeholder "b", "$b", 11⟩, ⟨.eof, "", 13⟩] := by
    decide +kernel
  obtain ⟨-, hpairwise, hcovers, -⟩ := scan_spans_partition _ _ hscan
  exact ⟨_, hscan, rfl, hpairwise, hcovers⟩

end Reckoner
