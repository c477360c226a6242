import Mathlib
import Reckoner.Proofs.Composition
import Reckoner.Proofs.Decimal.Written
import Reckoner.Proofs.Spacing

/-!
# Writing Tokens

Tokens that are written out are scanned back to what they were. The canonical text of a token spells
it: a number is written as a numeral of its value, however many digits that takes, and a power sign
always with the one symbol. A blank ends every token, so behind a gap each text is scanned as it is
by itself, whatever is next to it. And what is scanned can be written, as long as its numbers are
finite: a numeral has no sign, and a name is a name.

Main definitions:

* `Token.Writable`: tokens that their canonical texts spell;
* `spaceOut`: the canonical texts of tokens with gaps before them, and `KeepApart`, gaps that
  separate.

Main results:

* `Token.Writable.spells_text`, `Spells.writable`: tokens that are written are those that are
  scanned;
* `lexed_spaceOut`: behind gaps that keep them apart, tokens are lexed to themselves;
* `written_tokens_are_scanned_back`: tokens that are written out are scanned back.
-/

namespace Reckoner

/-! ### One token -/

/-- A token is **writable** if its canonical text spells it: a finite number without a minus sign, a
name or a placeholder whose name is one, or a symbol. The end of a formula has no spelling. -/
def Token.Writable : Token → Prop
  | .number x => x.isFinite ∧ x.isNegative = false
  | .name s => isName s
  | .placeholder s => isName s
  | .eof => False
  | _ => True

instance : (t : Token) → Decidable t.Writable
  | .number x => inferInstanceAs (Decidable (x.isFinite ∧ x.isNegative = false))
  | .name s | .placeholder s => inferInstanceAs (Decidable (isName s))
  | .eof => inferInstanceAs (Decidable False)
  | .operator _ | .openParen | .closeParen | .comma => inferInstanceAs (Decidable True)

/-- What a token is written as spells it. -/
theorem Token.Writable.spells_text {t : Token} (h : t.Writable) : Spells t t.text.toList := by
  cases t with
  | number x =>
    obtain ⟨n, hn, htext, hvalue⟩ := Binary64.exists_numeral_write Layout.readable_plain h.1 h.2
    have hspells := Spells.number hn
    rwa [hvalue, htext] at hspells
  | name s => exact spells_name_iff.2 ⟨h, rfl⟩
  | placeholder s => exact spells_placeholder_iff.2 ⟨h, by simp [text]⟩
  | operator op => simpa [text] using Spells.operator op
  | openParen => exact .openParen
  | closeParen => exact .closeParen
  | comma => exact .comma
  | eof => exact h.elim

/-- What is spelled can be written, but for numbers out of range. -/
theorem Spells.writable {t : Token} {w : List Char} (h : Spells t w)
    (hfinite : ∀ x, t = .number x → x.isFinite) : t.Writable := by
  cases h with
  | number hn => exact ⟨hfinite _ rfl, Binary64.isNegative_ofDecimal _ _⟩
  | name hc hcs => exact (spells_name_iff.1 (.name hc hcs)).1
  | placeholder hc hcs => exact (spells_placeholder_iff.1 (.placeholder hc hcs)).1
  | _ => trivial

/-- Tokens of a formula can be written, if their numbers are finite. -/
theorem Lexed.writable {text : List Char} {tokens : List Token} (h : Lexed text tokens)
    (hfinite : ∀ x, .number x ∈ tokens → x.isFinite) : ∀ t ∈ tokens, t.Writable := by
  induction h with
  | nil => simp
  | blank _ _ ih => exact ih hfinite
  | token hlongest _ ih =>
    refine List.forall_mem_cons.2 ⟨hlongest.spells.writable fun x hx => ?_, ih fun x hx => ?_⟩
    · exact hfinite x (hx ▸ List.mem_cons_self)
    · exact hfinite x (List.mem_cons_of_mem _ hx)

/-! ### Tokens behind gaps -/

/-- The canonical texts of tokens with a gap before each of them. -/
def spaceOut : (gaps : List String) → (tokens : List Token) → String
  | gap :: gaps, t :: tokens => gap ++ t.text ++ spaceOut gaps tokens
  | _, _ => ""

/-- Gaps **keep apart** what they stand before: they are blank, and only the first one may be
empty. -/
structure KeepApart (gaps : List String) : Prop where
  blank : ∀ gap ∈ gaps, isBlankText gap
  ne_empty : ∀ gap ∈ gaps.tail, gap ≠ ""

/-- Behind the first gap, gaps keep apart as well. -/
theorem KeepApart.tail {gap : String} {gaps : List String} (h : KeepApart (gap :: gaps)) :
    KeepApart gaps where
  blank := fun g hg => h.blank g (List.mem_cons_of_mem gap hg)
  ne_empty := fun g hg => h.ne_empty g (List.mem_of_mem_tail hg)

/-- What is behind the first gap ends the token before it. -/
theorem KeepApart.apart_spaceOut {gap : String} {gaps : List String} (h : KeepApart (gap :: gaps))
    (tokens : List Token) : Apart (spaceOut gaps tokens).toList := by
  match gaps, tokens with
  | [], _ | _ :: _, [] => simp [spaceOut, Apart]
  | gap' :: gaps, t :: tokens =>
    have hblank : isBlankText gap' := h.blank gap' (by simp)
    have hne : gap' ≠ "" := h.ne_empty gap' (by simp)
    have hapart : Apart (gap'.toList ++ (t.text ++ spaceOut gaps tokens).toList) :=
      apart_of_isBlankText hblank fun hempty => absurd hempty hne
    simpa [spaceOut] using hapart

/-- **Tokens are lexed to themselves** behind gaps that keep them apart. -/
theorem lexed_spaceOut {gaps : List String} {tokens : List Token}
    (hlength : gaps.length = tokens.length) (hgaps : KeepApart gaps)
    (htokens : ∀ t ∈ tokens, t.Writable) : Lexed (spaceOut gaps tokens).toList tokens := by
  induction tokens generalizing gaps with
  | nil =>
    obtain rfl := List.length_eq_zero_iff.1 hlength
    exact .nil
  | cons t tokens ih =>
    obtain ⟨gap, gaps, rfl⟩ := List.exists_cons_of_length_eq_add_one hlength
    obtain ⟨ht, htokens⟩ := List.forall_mem_cons.1 htokens
    have hrest := ih (Nat.succ.inj hlength) hgaps.tail htokens
    have htoken := hrest.token (ht.spells_text.longest (hgaps.apart_spaceOut tokens))
    have hlexed := htoken.skip (List.all_eq_true.1 (hgaps.blank gap List.mem_cons_self))
    simpa [spaceOut] using hlexed

/-- **Tokens that are written out are scanned back**: the canonical texts of finite numbers without
a minus sign, of names, of placeholders and of symbols, with any blanks between them, are scanned to
the very tokens. So a formula without numbers out of range may be written out from its tokens, and
is scanned to the same tokens again. -/
theorem written_tokens_are_scanned_back (gaps : List String) (tokens : List Token)
    (hlength : gaps.length = tokens.length) (hgaps : KeepApart gaps) :
    ((∀ t ∈ tokens, t.Writable) → ∃ lexemes, scan (spaceOut gaps tokens) = .ok lexemes ∧
      lexemes.map Lexeme.token = tokens ++ [.eof]) ∧
    ∀ (formula : String) (lexemes : List Lexeme), scan formula = .ok lexemes →
      lexemes.map Lexeme.token = tokens ++ [.eof] → (∀ x, .number x ∈ tokens → x.isFinite) →
        ∃ lexemes', scan (spaceOut gaps tokens) = .ok lexemes' ∧
          lexemes'.map Lexeme.token = lexemes.map Lexeme.token := by
  refine ⟨fun hwritable => (lexed_spaceOut hlength hgaps hwritable).exists_scan, ?_⟩
  intro formula lexemes hscan htokens hfinite
  obtain ⟨tokens', hlexed, htokens'⟩ := (scanFrom_eq_ok_iff.1 hscan).exists_lexed
  obtain rfl : tokens' = tokens := List.append_cancel_right (htokens'.symm.trans htokens)
  obtain ⟨lexemes', hscan', hsame⟩ :=
    (lexed_spaceOut hlength hgaps (hlexed.writable hfinite)).exists_scan
  exact ⟨lexemes', hscan', hsame.trans htokens.symm⟩

/-- A numeral with an exponent right before a name that looks like one, a power sign of two
asterisks, and a placeholder that is called like an infinity. Written out, the number has 23
digits. -/
theorem written_tokens_are_scanned_back_exponent :
    KeepApart ["", "\u3000", " ", "\t"] ∧
    spaceOut ["", "\u3000", " ", "\t"] [.number (.ofInt 10000000000000000000000), .name "e5",
      .operator .pow, .placeholder "inf"] = "10000000000000000000000\u3000e5 ^\t$inf" ∧
    (∃ lexemes, scan "10000000000000000000000\u3000e5 ^\t$inf" = .ok lexemes ∧
      lexemes.map Lexeme.token = [.number (.ofInt 10000000000000000000000), .name "e5",
        .operator .pow, .placeholder "inf", .eof]) ∧
    ∃ lexemes lexemes', scan "1e22e5**$inf" = .ok lexemes ∧
      scan "10000000000000000000000\u3000e5 ^\t$inf" = .ok lexemes' ∧
      lexemes'.map Lexeme.token = lexemes.map Lexeme.token := by
  have hgaps : KeepApart ["", "\u3000", " ", "\t"] := ⟨by decide, by decide⟩
  have htext : spaceOut ["", "\u3000", " ", "\t"] [.number (.ofInt 10000000000000000000000),
      .name "e5", .operator .pow, .placeholder "inf"] =
      "10000000000000000000000\u3000e5 ^\t$inf" := by
    decide +kernel
  have hwritable : ∀ t ∈ [Token.number (.ofInt 10000000000000000000000), .name "e5",
      .operator .pow, .placeholder "inf"], t.Writable := by
    decide +kernel
  have hscan : scan "1e22e5**$inf" = .ok [⟨.number (.ofInt 10000000000000000000000), "1e22", 0⟩,
      ⟨.name "e5", "e5", 4⟩, ⟨.operator .pow, "**", 6⟩, ⟨.placeholder "inf", "$inf", 8⟩,
      ⟨.eof, "", 12⟩] := by
    decide +kernel
  obtain ⟨hwritten, hrescanned⟩ := written_tokens_are_scanned_back ["", "\u3000", " ", "\t"]
    [.number (.ofInt 10000000000000000000000), .name "e5", .operator .pow, .placeholder "inf"]
    rfl hgaps
  rw [htext] at hwritten hrescanned
  obtain ⟨lexemes', hscan', hsame⟩ := hrescanned _ _ hscan rfl fun x hx => (hwritable _ hx).1
  exact ⟨hgaps, htext, hwritten hwritable, _, lexemes', hscan, hscan', hsame⟩

end Reckoner
