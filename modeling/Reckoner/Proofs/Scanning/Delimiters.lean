import Mathlib
import Reckoner.Proofs.Scanning.LongestMatch

/-!
# Delimiters

How far a token goes is settled by a few characters behind it. A character that no token has but in
front, such as a parenthesis, ends every token: what follows it is of no consequence, and so is
whether it is there at all. Scanning is gone through here from the back, since the text behind a
token decides about it.

Main definitions:

* `Delimits`, `Apart`: a character that ends every token, and text that opens with one or is empty;
* `SameUpToDelimiter`: two texts that are the same up to a delimiter in the second one;
* `Scanned`: text that is scanned to the end.

Main results:

* `Spells.longest`: in front of a delimiter a token is the longest one;
* `Longest.of_sameUpToDelimiter`: a token is the longest one in front of a text if it is in front of
  another one that is the same up to a delimiter;
* `scanFrom_eq_ok_iff`: text is scanned exactly if it is gone through to the end.
-/

namespace Reckoner

/-! ### Characters inside tokens -/

/-- An exponent is made of characters of names and of signs. -/
theorem Exponent.Valid.mem_text {e : Exponent} (he : e.Valid) {c : Char} (hc : c ∈ e.text) :
    isNameChar c ∨ c = '+' ∨ c = '-' := by
  simp only [Exponent.text, List.mem_cons, List.mem_append, Option.mem_toList] at hc
  rcases hc with rfl | hc | hc
  · left
    rcases he.mark with h | h <;> rw [h] <;> rfl
  · exact .inr (he.sign c hc)
  · exact .inl (isNameChar_iff.2 (.inr (he.digits c hc)))

/-- A numeral is made of characters of names, of signs and of points. -/
theorem Numeral.Valid.mem_text {n : Numeral} (hn : n.Valid) {c : Char} (hc : c ∈ n.text) :
    isNameChar c ∨ c = '+' ∨ c = '-' ∨ c = '.' := by
  have hdigit : c.isDigit → isNameChar c := fun h => isNameChar_iff.2 (.inr h)
  obtain ⟨whole, fraction, exponent⟩ := n
  simp only [Numeral.text, List.mem_append] at hc
  rcases hc with (hc | hc) | hc
  · exact .inl (hdigit (hn.whole c hc))
  · cases fraction with
    | none => simp at hc
    | some fraction =>
      rcases List.mem_cons.1 hc with rfl | hc
      · exact .inr (.inr (.inr rfl))
      · exact .inl (hdigit (hn.fraction fraction rfl c hc))
  · cases exponent with
    | none => simp at hc
    | some e =>
      rcases (hn.exponent e rfl).mem_text hc with h | h | h
      · exact .inl h
      · exact .inr (.inl h)
      · exact .inr (.inr (.inl h))

/-- Behind its first character a token has characters of names, signs, points and asterisks. -/
theorem Spells.mem_tail {t : Token} {w : List Char} (h : Spells t w) {c : Char} (hc : c ∈ w.tail) :
    isNameChar c ∨ c = '+' ∨ c = '-' ∨ c = '.' ∨ c = '*' := by
  cases h with
  | number hn =>
    rcases hn.mem_text (List.mem_of_mem_tail hc) with h | h | h | h
    · exact .inl h
    · exact .inr (.inl h)
    · exact .inr (.inr (.inl h))
    · exact .inr (.inr (.inr (.inl h)))
  | name hstart hrest => exact .inl (hrest c hc)
  | placeholder hstart hrest =>
    rcases List.mem_cons.1 hc with rfl | hc
    · exact .inl (isNameChar_of_isNameStart hstart)
    · exact .inl (hrest c hc)
  | asterisks => exact .inr (.inr (.inr (.inr (List.mem_singleton.1 hc))))
  | operator | openParen | closeParen | comma => cases hc

/-! ### What ends a token -/

/-- A character **delimits** if no token has it behind its first character. -/
def Delimits (c : Char) : Prop :=
  ∀ ⦃t : Token⦄ ⦃w : List Char⦄, Spells t w → c ∉ w.tail

/-- A character delimits if it is no name character, no sign, no point and no asterisk. -/
theorem delimits_of_ne {c : Char} (hname : isNameChar c = false)
    (hc : c ≠ '+' ∧ c ≠ '-' ∧ c ≠ '.' ∧ c ≠ '*') : Delimits c := by
  intro t w h hmem
  simpa [hname, hc] using h.mem_tail hmem

/-- **A blank ends every token.** -/
theorem delimits_of_isBlank {c : Char} (hc : isBlank c) : Delimits c := by
  intro t w h hmem
  have hfalse := h.isBlank_eq_false c (List.mem_of_mem_tail hmem)
  rw [hc] at hfalse
  cases hfalse

/-- Text that is **apart** from what is in front of it: it is empty or opens with a delimiter. -/
def Apart (text : List Char) : Prop :=
  ∀ c ∈ text.head?, Delimits c

/-- What opens with a delimiter is apart from what is in front of it. -/
theorem Delimits.apart {c : Char} (h : Delimits c) (rest : List Char) : Apart (c :: rest) := by
  intro d hd
  obtain rfl : c = d := Option.some.inj hd
  exact h

/-- An opening parenthesis ends what is in front of it. -/
theorem apart_openParen (rest : List Char) : Apart ('(' :: rest) :=
  (delimits_of_ne (by decide) (by decide)).apart rest

/-- A closing parenthesis ends what is in front of it. -/
theorem apart_closeParen (rest : List Char) : Apart (')' :: rest) :=
  (delimits_of_ne (by decide) (by decide)).apart rest

/-- A token at the front of a text ends before a delimiter. -/
theorem Spells.isPrefix_of_apart {t : Token} {w front rest : List Char} (h : Spells t w)
    (hfront : front ≠ []) (hrest : Apart rest) (hw : w <+: front ++ rest) : w <+: front := by
  rcases List.prefix_or_prefix_of_prefix hw (List.prefix_append front rest) with hw' | ⟨more, rfl⟩
  · exact hw'
  · cases more with
    | nil => rw [List.append_nil]
    | cons c more =>
      obtain ⟨last, hlast⟩ := (List.prefix_append_right_inj front).1 hw
      have hc : Delimits c := hrest c (by rw [← hlast]; rfl)
      refine absurd ?_ (hc h)
      rw [List.tail_append_of_ne_nil hfront]
      simp

/-- **In front of a delimiter a token is the longest one.** -/
theorem Spells.longest {t : Token} {w rest : List Char} (h : Spells t w) (hrest : Apart rest) :
    Longest t w (w ++ rest) :=
  ⟨h, List.prefix_append w rest, fun hs hw => (hs.isPrefix_of_apart h.ne_nil hrest hw).length_le⟩

/-- A symbol other than an asterisk is the longest token in front of any text. -/
theorem longest_symbol {c : Char} {t : Token} (hc : symbolToken? c = some t) (hne : c ≠ '*')
    (rest : List Char) : Longest t [c] ([c] ++ rest) :=
  Token.scan?_eq_some_iff.1 (Token.scan?_of_symbol hc (by simp [hne]))

/-- Two texts are the **same up to a delimiter** in the second one, or up to its end. -/
def SameUpToDelimiter (text text' : List Char) : Prop :=
  ∃ front rest rest', text = front ++ rest ∧ text' = front ++ rest' ∧ Apart rest'

/-- A text that is apart is the same as any other up to the delimiter in front of it. -/
theorem SameUpToDelimiter.of_apart {text' : List Char} (h : Apart text') (text : List Char) :
    SameUpToDelimiter text text' :=
  ⟨[], text, text', rfl, rfl, h⟩

/-- Texts that are the same up to a delimiter are so behind the same text. -/
theorem SameUpToDelimiter.append_left {text text' : List Char} (h : SameUpToDelimiter text text')
    (w : List Char) : SameUpToDelimiter (w ++ text) (w ++ text') := by
  obtain ⟨front, rest, rest', rfl, rfl, hrest⟩ := h
  exact ⟨w ++ front, rest, rest', by simp, by simp, hrest⟩

/-- **What follows a delimiter has no part in the token before it.** -/
theorem Longest.of_sameUpToDelimiter {t : Token} {w text text' : List Char}
    (h : Longest t w (w ++ text)) (htext : SameUpToDelimiter text text') :
    Longest t w (w ++ text') := by
  obtain ⟨front, rest, rest', rfl, rfl, hrest⟩ := htext
  refine ⟨h.spells, List.prefix_append _ _, fun {t' w'} hs hw => h.length_le hs ?_⟩
  have hne : w ++ front ≠ [] := by simp [h.spells.ne_nil]
  rw [← List.append_assoc] at hw ⊢
  exact (hs.isPrefix_of_apart hne hrest hw).trans (List.prefix_append _ _)

/-! ### Scanning from the back -/

/-- Text at a byte offset is **scanned** to the end: blanks are skipped and the longest token is
emitted elsewhere. -/
inductive Scanned : (offset : Nat) → (text : List Char) → (lexemes : List Lexeme) → Prop
  | done (offset : Nat) : Scanned offset [] [⟨.eof, "", offset⟩]
  | blank {offset : Nat} {c : Char} {text : List Char} {lexemes : List Lexeme} : isBlank c →
      Scanned (offset + c.utf8Size) text lexemes → Scanned offset (c :: text) lexemes
  | token {offset : Nat} {t : Token} {w text : List Char} {lexemes : List Lexeme} :
      Longest t w (w ++ text) → Scanned (offset + byteSize w) text lexemes →
      Scanned offset (w ++ text) (⟨t, String.ofList w, offset⟩ :: lexemes)

/-- The scanner finds the tokens of a scanned text. -/
theorem Scanned.scanFrom_eq {offset : Nat} {text : List Char} {lexemes : List Lexeme}
    (h : Scanned offset text lexemes) : scanFrom offset text = .ok lexemes := by
  induction h with
  | done offset => exact scanFrom_nil offset
  | blank hc _ ih => rw [scanFrom_blank hc, ih]
  | token hlongest _ ih =>
    rw [scanFrom_token hlongest, ih]
    rfl

/-- **Text is scanned exactly if it is gone through to the end.** -/
theorem scanFrom_eq_ok_iff {offset : Nat} {text : List Char} {lexemes : List Lexeme} :
    scanFrom offset text = .ok lexemes ↔ Scanned offset text lexemes := by
  refine ⟨fun h => ?_, Scanned.scanFrom_eq⟩
  -- Every step leaves fewer characters.
  induction hlen : text.length using Nat.strong_induction_on generalizing offset text lexemes with
  | _ len ih =>
    cases text with
    | nil =>
      rw [scanFrom_nil] at h
      rw [← Except.ok.inj h]
      exact .done offset
    | cons c rest =>
      rcases step_or_stuck c rest with hblank | ⟨t, w, after, heq, hlongest⟩ | hstuck
      · rw [scanFrom_blank hblank] at h
        exact .blank hblank (ih _ (by simp [← hlen]) h rfl)
      · rw [heq, scanFrom_token hlongest] at h
        cases hafter : scanFrom (offset + byteSize w) after with
        | error err =>
          rw [hafter] at h
          cases h
        | ok ls =>
          rw [hafter] at h
          have hlength := congrArg List.length heq
          have hpos := List.length_pos_iff.2 hlongest.spells.ne_nil
          rw [List.length_append] at hlength
          rw [← Except.ok.inj h, heq]
          exact .token hlongest (ih _ (by omega) hafter rfl)
      · rw [scanFrom_stuck hstuck] at h
        cases h

/-- Blanks are skipped. -/
theorem Scanned.skip {gap text : List Char} {offset : Nat} {lexemes : List Lexeme}
    (hgap : ∀ c ∈ gap, isBlank c) (h : Scanned (offset + byteSize gap) text lexemes) :
    Scanned offset (gap ++ text) lexemes := by
  induction gap generalizing offset with
  | nil => exact h
  | cons c gap ih =>
    obtain ⟨hc, hgap⟩ := List.forall_mem_cons.1 hgap
    rw [byteSize_cons, ← Nat.add_assoc] at h
    exact .blank hc (ih hgap h)

/-- Blank text is scanned to its end. -/
theorem scanned_of_isBlank {text : List Char} (h : ∀ c ∈ text, isBlank c) (offset : Nat) :
    Scanned offset text [⟨.eof, "", offset + byteSize text⟩] := by
  have hscanned := Scanned.skip h (.done (offset + byteSize text))
  rwa [List.append_nil] at hscanned

end Reckoner
