import Mathlib
import Reckoner.Proofs.Scanning.Classes
import Reckoner.Proofs.Steps

/-!
# Scanning Is Longest Match

A formula is gone through from the left: a blank is skipped, and at any other character the longest
token is emitted. A formula is scanned if the end is reached in this way; else a character is, where
text is left that opens with no token, and this one is the error.

Main definitions:

* `Reached`: a place of a text that is reached, with the lexemes that were emitted on the way;
* `Stuck`: text that opens with no token and no blank.

Main results:

* `Reached.cut`: what follows a place has no part in how it is reached;
* `scan_eq_ok_iff`, `scan_eq_error_iff`: where scanning ends;
* `scan_longest_match`: scanning is longest match, and its errors are exact.
-/

namespace Reckoner

/-- A place of a text is **reached**, between `before` and `after`, and the lexemes were emitted on
the way. -/
inductive Reached (text : List Char) : (before : List Char) → (lexemes : List Lexeme) →
    (after : List Char) → Prop
  | start : Reached text [] [] text
  | blank {before : List Char} {lexemes : List Lexeme} {c : Char} {after : List Char} :
      Reached text before lexemes (c :: after) → isBlank c →
      Reached text (before ++ [c]) lexemes after
  | token {before : List Char} {lexemes : List Lexeme} {t : Token} {w after : List Char} :
      Reached text before lexemes (w ++ after) → Longest t w (w ++ after) →
      Reached text (before ++ w) (lexemes ++ [⟨t, String.ofList w, byteSize before⟩]) after

/-- Text is **stuck** if it opens with a character that is no blank and opens no token. -/
def Stuck (text : List Char) : Prop :=
  (∀ c ∈ text.head?, isBlank c = false) ∧ ∀ t w, Spells t w → ¬ w <+: text

/-! ### Sizes -/

@[simp] theorem byteSize_nil : byteSize [] = 0 := rfl

@[simp] theorem byteSize_cons (c : Char) (cs : List Char) :
    byteSize (c :: cs) = c.utf8Size + byteSize cs := rfl

@[simp] theorem byteSize_append (cs ds : List Char) :
    byteSize (cs ++ ds) = byteSize cs + byteSize ds := by
  induction cs with
  | nil => simp
  | cons c cs ih => simp [ih, Nat.add_assoc]

/-- The bytes of characters are those of their encoding in UTF-8. -/
theorem byteSize_eq_utf8Len (cs : List Char) : byteSize cs = String.utf8Len cs := by
  induction cs with
  | nil => rfl
  | cons c cs ih => rw [byteSize_cons, ih, String.utf8Len_cons, Nat.add_comm]

/-- The bytes of the characters of a text are those of the text. -/
theorem byteSize_toList (s : String) : byteSize s.toList = s.utf8ByteSize := by
  rw [byteSize_eq_utf8Len, ← String.utf8ByteSize_ofList, String.ofList_toList]

/-- A character is at least one byte long. -/
theorem length_le_byteSize (cs : List Char) : cs.length ≤ byteSize cs := by
  induction cs with
  | nil => exact le_rfl
  | cons c cs ih =>
    have := c.utf8Size_pos
    rw [List.length_cons, byteSize_cons]
    omega

/-- Fronts of a text of the same size are the same. -/
theorem eq_of_byteSize_eq {cs ds text : List Char} (hcs : cs <+: text) (hds : ds <+: text)
    (h : byteSize cs = byteSize ds) : cs = ds := by
  have hempty : ∀ {bs : List Char}, byteSize bs = 0 → bs = [] := by
    intro bs hbs
    have := length_le_byteSize bs
    exact List.length_eq_zero_iff.1 (by omega)
  rcases List.prefix_or_prefix_of_prefix hcs hds with ⟨bs, rfl⟩ | ⟨bs, rfl⟩
  · rw [byteSize_append] at h
    rw [hempty (by omega : byteSize bs = 0), List.append_nil]
  · rw [byteSize_append] at h
    rw [hempty (by omega : byteSize bs = 0), List.append_nil]

/-! ### One step of the scanner -/

/-- At the end of the text there is the end of the formula. -/
theorem scanFrom_nil (offset : Nat) : scanFrom offset [] = .ok [⟨.eof, "", offset⟩] := by
  rw [scanFrom]

/-- A blank is skipped. -/
theorem scanFrom_blank {c : Char} (hc : isBlank c) (offset : Nat) (rest : List Char) :
    scanFrom offset (c :: rest) = scanFrom (offset + c.utf8Size) rest := by
  rw [scanFrom, if_pos hc]

/-- The longest token is emitted, and scanning goes on behind it. -/
theorem scanFrom_token {t : Token} {w after : List Char} (h : Longest t w (w ++ after))
    (offset : Nat) : scanFrom offset (w ++ after) =
      (scanFrom (offset + byteSize w) after).map (⟨t, String.ofList w, offset⟩ :: ·) := by
  obtain ⟨c, tail, rfl⟩ := List.exists_cons_of_ne_nil h.spells.ne_nil
  have hblank : ¬ isBlank c := by
    simp [h.spells.isBlank_eq_false c List.mem_cons_self]
  rw [List.cons_append] at h ⊢
  rw [scanFrom, if_neg hblank, Token.scan?_eq_some_iff.2 h]
  dsimp only
  rw [List.drop_left]
  cases scanFrom (offset + byteSize (c :: tail)) after <;> rfl

/-- Where no token can be, the scanner names the character and its offset. -/
theorem scanFrom_stuck {c : Char} {rest : List Char} (h : Stuck (c :: rest)) (offset : Nat) :
    scanFrom offset (c :: rest) = .error (.unexpectedChar c offset) := by
  have hblank : ¬ isBlank c := by
    simp [h.1 c rfl]
  rw [scanFrom, if_neg hblank, Token.scan?_eq_none_iff.2 h.2]

/-- Text that is left is gone on with, or it is stuck. -/
theorem step_or_stuck (c : Char) (rest : List Char) :
    isBlank c ∨ (∃ t w after, c :: rest = w ++ after ∧ Longest t w (w ++ after)) ∨
      Stuck (c :: rest) := by
  by_cases hblank : isBlank c
  · exact .inl hblank
  cases hscan : Token.scan? c rest with
  | some p =>
    obtain ⟨t, tail⟩ := p
    have hlongest := Token.scan?_eq_some_iff.1 hscan
    obtain ⟨after, hafter⟩ := hlongest.isPrefix
    exact .inr (.inl ⟨t, c :: tail, after, hafter.symm, hafter ▸ hlongest⟩)
  | none =>
    refine .inr (.inr ⟨?_, Token.scan?_eq_none_iff.1 hscan⟩)
    simpa using hblank

/-! ### Runs of the scanner -/

namespace Reached

variable {text before after : List Char} {lexemes : List Lexeme}

/-- What has been scanned and what is left make up the text. -/
theorem append_eq (h : Reached text before lexemes after) : before ++ after = text := by
  induction h with
  | start => rfl
  | blank _ _ ih => simpa using ih
  | token _ _ ih => simpa using ih

/-- **What follows a place has no part in how it is reached.** -/
theorem cut (h : Reached text before lexemes after) {after' : List Char}
    (hafter : after' <+: after) :
    Reached (before ++ after') before lexemes after' := by
  induction h generalizing after' with
  | start => exact .start
  | blank _ hc ih =>
    have hbefore := ih (List.cons_prefix_cons.2 ⟨rfl, hafter⟩)
    rw [List.append_assoc]
    exact .blank hbefore hc
  | @token before lexemes t w after _ hlongest ih =>
    have hw : w ++ after' <+: w ++ after := (List.prefix_append_right_inj w).2 hafter
    rw [List.append_assoc]
    exact .token (ih hw) (hlongest.cut (List.prefix_append w after') hw)

/-- A place that is reached is gone on from with the lexemes that were emitted. -/
theorem scanFrom_eq (h : Reached text before lexemes after) :
    scanFrom 0 text = (scanFrom (byteSize before) after).map (lexemes ++ ·) := by
  induction h with
  | start =>
    rw [byteSize_nil]
    cases scanFrom 0 text <;> rfl
  | blank _ hc ih =>
    rw [ih, scanFrom_blank hc, byteSize_append, byteSize_cons, byteSize_nil, Nat.add_zero]
  | @token before lexemes t w after _ hlongest ih =>
    rw [ih, scanFrom_token hlongest, byteSize_append]
    cases scanFrom (byteSize before + byteSize w) after with
    | error err => rfl
    | ok ls => simp [Except.map]

/-- Where the end is reached, all lexemes were emitted. -/
theorem scanFrom_eq_ok (h : Reached text before lexemes []) :
    scanFrom 0 text = .ok (lexemes ++ [⟨.eof, "", byteSize before⟩]) := by
  rw [h.scanFrom_eq, scanFrom_nil]
  rfl

/-- Where text is stuck, its first character is the error. -/
theorem scanFrom_eq_error {c : Char} (h : Reached text before lexemes (c :: after))
    (hstuck : Stuck (c :: after)) :
    scanFrom 0 text = .error (.unexpectedChar c (byteSize before)) := by
  rw [h.scanFrom_eq, scanFrom_stuck hstuck]
  rfl

/-- From every place that is reached, the end is, or a place where text is stuck. -/
theorem exists_end (h : Reached text before lexemes after) :
    (∃ before' lexemes', before <+: before' ∧ Reached text before' lexemes' []) ∨
      ∃ before' lexemes' c after', before <+: before' ∧
        Reached text before' lexemes' (c :: after') ∧ Stuck (c :: after') := by
  -- Every step leaves fewer characters.
  induction hlen : after.length using Nat.strong_induction_on generalizing before lexemes after with
  | _ len ih =>
    have hgoes : ∀ {w lexemes' after'}, after'.length < len →
        Reached text (before ++ w) lexemes' after' →
        (∃ before' lexemes', before <+: before' ∧ Reached text before' lexemes' []) ∨
          ∃ before' lexemes' c after', before <+: before' ∧
            Reached text before' lexemes' (c :: after') ∧ Stuck (c :: after') := by
      intro w lexemes' after' hlt hstep
      have hfront : before <+: before ++ w := List.prefix_append before w
      rcases ih _ hlt hstep rfl with ⟨b, ls, hb, hend⟩ | ⟨b, ls, c, a, hb, hreached, hstuck⟩
      · exact .inl ⟨b, ls, hfront.trans hb, hend⟩
      · exact .inr ⟨b, ls, c, a, hfront.trans hb, hreached, hstuck⟩
    cases after with
    | nil => exact .inl ⟨before, lexemes, List.prefix_rfl, h⟩
    | cons c rest =>
      rcases step_or_stuck c rest with hblank | ⟨t, w, after, heq, hlongest⟩ | hstuck
      · exact hgoes (by simp [← hlen]) (h.blank hblank)
      · refine hgoes ?_ ((heq ▸ h).token hlongest)
        have hlength := congrArg List.length heq
        have hpos := List.length_pos_iff.2 hlongest.spells.ne_nil
        rw [List.length_append] at hlength
        omega
      · exact .inr ⟨before, lexemes, c, rest, List.prefix_rfl, h, hstuck⟩

/-- Of the places of a text that are reached, that where it is stuck is the last. -/
theorem isPrefix_of_stuck {before' : List Char} {lexemes' : List Lexeme} {after' : List Char}
    {c : Char} (h : Reached text before' lexemes' after')
    (hreached : Reached text before lexemes (c :: after)) (hstuck : Stuck (c :: after)) :
    before' <+: before := by
  have hfails := hreached.scanFrom_eq_error hstuck
  obtain ⟨b, ls, -, hend⟩ | ⟨b, ls, d, a, hb, hreached', hstuck'⟩ := h.exists_end
  · rw [hend.scanFrom_eq_ok] at hfails
    cases hfails
  · rw [hreached'.scanFrom_eq_error hstuck', Except.error.injEq, FormulaError.unexpectedChar.injEq]
      at hfails
    have heq : b = before := eq_of_byteSize_eq
      ⟨_, hreached'.append_eq⟩ ⟨_, hreached.append_eq⟩ hfails.2
    exact heq ▸ hb

/-- A lexeme that was emitted is the longest token at its place. -/
theorem longest_of_mem (h : Reached text before lexemes after) {l : Lexeme} (hl : l ∈ lexemes) :
    ∃ pre rest, pre ++ rest = text ∧ byteSize pre = l.start ∧
      Longest l.token l.spelling.toList rest := by
  induction h with
  | start => cases hl
  | blank _ _ ih => exact ih hl
  | @token before lexemes t w after hreached hlongest ih =>
    rcases List.mem_append.1 hl with hl | hl
    · exact ih hl
    · obtain rfl := List.mem_singleton.1 hl
      refine ⟨before, w ++ after, hreached.append_eq, rfl, ?_⟩
      rwa [String.toList_ofList]

end Reached

/-- **Where scanning succeeds**: the end of the formula is reached. -/
theorem scan_eq_ok_iff {formula : String} {ls : List Lexeme} : scan formula = .ok ls ↔
    ∃ lexemes, Reached formula.toList formula.toList lexemes [] ∧
      ls = lexemes ++ [⟨.eof, "", formula.utf8ByteSize⟩] := by
  rw [scan, ← byteSize_toList]
  constructor
  · intro h
    have hstart : Reached formula.toList [] [] formula.toList := .start
    obtain ⟨before, lexemes, -, hend⟩ | ⟨before, lexemes, c, after, -, hreached, hstuck⟩ :=
      hstart.exists_end
    · obtain rfl : before = formula.toList := by simpa using hend.append_eq
      exact ⟨lexemes, hend, Except.ok.inj (h.symm.trans hend.scanFrom_eq_ok)⟩
    · rw [hreached.scanFrom_eq_error hstuck] at h
      cases h
  · rintro ⟨lexemes, hend, rfl⟩
    exact hend.scanFrom_eq_ok

/-- **Where scanning fails**: text is stuck at a place that is reached. -/
theorem scan_eq_error_iff {formula : String} {err : FormulaError} : scan formula = .error err ↔
    ∃ before lexemes c after, Reached formula.toList before lexemes (c :: after) ∧
      Stuck (c :: after) ∧ err = .unexpectedChar c (byteSize before) := by
  rw [scan]
  constructor
  · intro h
    have hstart : Reached formula.toList [] [] formula.toList := .start
    obtain ⟨before, lexemes, -, hend⟩ | ⟨before, lexemes, c, after, -, hreached, hstuck⟩ :=
      hstart.exists_end
    · rw [hend.scanFrom_eq_ok] at h
      cases h
    · exact ⟨before, lexemes, c, after, hreached, hstuck,
        Except.error.inj (h.symm.trans (hreached.scanFrom_eq_error hstuck))⟩
  · rintro ⟨before, lexemes, c, after, hreached, hstuck, rfl⟩
    exact hreached.scanFrom_eq_error hstuck

/-- The part of a text up to a place that is reached is scanned by itself. -/
theorem Reached.scan_before {text before after : List Char} {lexemes : List Lexeme}
    (h : Reached text before lexemes after) :
    scan (String.ofList before) = .ok (lexemes ++ [⟨.eof, "", byteSize before⟩]) := by
  have hbefore := h.cut List.nil_prefix
  rw [List.append_nil] at hbefore
  rw [scan, String.toList_ofList]
  exact hbefore.scanFrom_eq_ok

/-- The text of a number token is read as a free-standing number text. -/
theorem Spells.parse?_eq_some {x : Binary64} {w : List Char} (h : Spells (.number x) w) :
    Binary64.parse? (String.ofList w) = some x := by
  cases h with
  | number hn => exact Numeral.parse?_text hn

/-- **Scanning is longest match, and its errors are exact.** A formula is scanned if going through
it, skipping blanks and emitting the longest token elsewhere, reaches its end. It fails if a place
is reached where text is left that opens with no token, with the character and the byte offset
there; this is the first such place, since none behind it is reached. Up to every place that is
reached the formula is scanned by itself, to the lexemes that were emitted; each is the longest
token at its place, and a numeral is always read. -/
theorem scan_longest_match (formula : String) :
    (∀ ls, scan formula = .ok ls ↔
      ∃ lexemes, Reached formula.toList formula.toList lexemes [] ∧
        ls = lexemes ++ [⟨.eof, "", formula.utf8ByteSize⟩]) ∧
    (∀ err, scan formula = .error err ↔
      ∃ before lexemes c after, Reached formula.toList before lexemes (c :: after) ∧
        Stuck (c :: after) ∧ err = .unexpectedChar c (byteSize before)) ∧
    (∀ before lexemes c after, Reached formula.toList before lexemes (c :: after) →
      Stuck (c :: after) → ∀ before' lexemes' after',
        Reached formula.toList before' lexemes' after' → before' <+: before) ∧
    ∀ before lexemes after, Reached formula.toList before lexemes after →
      scan (String.ofList before) = .ok (lexemes ++ [⟨.eof, "", byteSize before⟩]) ∧
      ∀ l ∈ lexemes,
        (∃ pre rest, pre ++ rest = formula.toList ∧ byteSize pre = l.start ∧
          Longest l.token l.spelling.toList rest) ∧
        ∀ x, l.token = .number x → Binary64.parse? l.spelling = some x := by
  refine ⟨fun ls => scan_eq_ok_iff, fun err => scan_eq_error_iff, ?_, ?_⟩
  · intro before lexemes c after hreached hstuck before' lexemes' after' hother
    exact hother.isPrefix_of_stuck hreached hstuck
  · intro before lexemes after h
    refine ⟨h.scan_before, fun l hl => ?_⟩
    obtain ⟨pre, rest, htext, hstart, hlongest⟩ := h.longest_of_mem hl
    refine ⟨⟨pre, rest, htext, hstart, hlongest⟩, fun x hx => ?_⟩
    rw [← String.ofList_toList (s := l.spelling)]
    exact (hx ▸ hlongest.spells).parse?_eq_some

/-- An exponent without digits is none, but a name and a sign, in front of a character that opens no
token. -/
theorem scan_longest_match_exponent :
    scan "2e+x #" = .error (.unexpectedChar '#' 5) ∧
      ∃ before lexemes after, Reached "2e+x #".toList before lexemes after ∧
        Stuck after ∧ byteSize before = 5 ∧ (∀ before' lexemes' after',
          Reached "2e+x #".toList before' lexemes' after' → before' <+: before) ∧
        scan (String.ofList before) = .ok (lexemes ++ [⟨.eof, "", 5⟩]) := by
  have hfails : scan "2e+x #" = .error (.unexpectedChar '#' 5) := by decide +kernel
  obtain ⟨-, herrors, hlast, hreads⟩ := scan_longest_match "2e+x #"
  obtain ⟨before, lexemes, c, after, hreached, hstuck, herr⟩ := (herrors _).1 hfails
  have hsize : 5 = byteSize before := (FormulaError.unexpectedChar.inj herr).2
  obtain ⟨hscan, -⟩ := hreads _ _ _ hreached
  exact ⟨hfails, before, lexemes, c :: after, hreached, hstuck, hsize.symm,
    hlast _ _ _ _ hreached hstuck, hsize ▸ hscan⟩

end Reckoner
