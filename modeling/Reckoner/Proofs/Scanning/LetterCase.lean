import Mathlib
import Reckoner.Proofs.Parsing.Correspondence
import Reckoner.Proofs.Scanning.Spans

/-!
# Scanning and the Case of Letters

The scanner asks of a letter only that it is one, but for the mark of an exponent, which may have
either case. So a text that differs from another one in the case of its letters is scanned in step
with it: what is the longest token in front of one is so in front of the other, and the texts are
stuck together, at a character that is no letter. The tokens are the same but for the case of names;
where placeholders keep their letters, they stay the same.

Main definitions:

* `SameLetters`: two texts are the same but for the case of their ASCII letters;
* `Recases`: so that all placeholders of the first one stand in the second one as they are;
* `Token.SameButCase`, `Lexeme.SameButCase`: tokens that are the same but for the case of a name,
  and lexemes at the same place.

Main results:

* `Spells.exists_of_sameLetters`: letters in another case spell a token of the same class;
* `Longest.exists_of_recases`, `Stuck.exists_of_sameLetters`: one step of the scanner;
* `scanFrom_agree`: the outcome of scanning.
-/

namespace Reckoner

/-! ### Letters -/

/-- Two texts are the **same but for the case** of their ASCII letters. -/
def SameLetters (cs cs' : List Char) : Prop :=
  cs.map Char.toLower = cs'.map Char.toLower

instance (cs cs' : List Char) : Decidable (SameLetters cs cs') :=
  inferInstanceAs (Decidable (_ = _))

section

variable {c d : Char}

/-- What is the same in lower case is the same, or is a letter. -/
theorem eq_or_isAlpha_of_toLower_eq (h : c.toLower = d.toLower) :
    c = d ∨ c.isAlpha ∧ d.isAlpha := by
  have halpha : c.isAlpha = d.isAlpha := by
    rw [← Char.isAlpha_toLower_eq_isAlpha, h, Char.isAlpha_toLower_eq_isAlpha]
  by_cases hc : c.isAlpha
  · exact .inr ⟨hc, halpha ▸ hc⟩
  · have hupper : ∀ e : Char, ¬e.isAlpha → e.toLower = e := fun e he =>
      Char.toLower_eq_of_not_isUpper fun hupper => he (by simp [Char.isAlpha, hupper])
    rw [hupper c hc, hupper d (halpha ▸ hc)] at h
    exact .inl h

/-- A letter has two cases. -/
theorem eq_toLower_or_eq_toUpper (h : c.toLower = d.toLower) : d = c.toLower ∨ d = c.toUpper := by
  by_cases hd : d.isUpper
  · right
    rw [← Char.toUpper_toLower_eq_toUpper, h, Char.toUpper_toLower_eq_toUpper,
      Char.toUpper_eq_of_not_isLower (Char.not_isLower_of_isUpper hd)]
  · left
    rw [h, Char.toLower_eq_of_not_isUpper hd]

/-- **What is the same for all letters** does not depend on their case. -/
theorem apply_eq_of_toLower_eq {α : Type} {f : Char → α} {a : α}
    (hf : ∀ e : Char, e.isAlpha → f e = a)
    (h : c.toLower = d.toLower) : f c = f d := by
  rcases eq_or_isAlpha_of_toLower_eq h with rfl | ⟨hc, hd⟩
  · rfl
  · rw [hf c hc, hf d hd]

/-- A character that is no letter is like itself only. -/
theorem eq_of_toLower_eq (h : c.toLower = d.toLower) (hc : c.isAlpha = false) : c = d := by
  rcases eq_or_isAlpha_of_toLower_eq h with rfl | ⟨hc', -⟩
  · rfl
  · rw [hc] at hc'
    cases hc'

/-- A letter opens a name. -/
theorem isNameStart_of_isAlpha (h : c.isAlpha) : isNameStart c = true := by
  rw [isNameStart, h, Bool.true_or]

/-- A letter continues a name. -/
theorem isNameChar_of_isAlpha (h : c.isAlpha) : isNameChar c = true :=
  isNameChar_of_isNameStart (isNameStart_of_isAlpha h)

/-- A letter is not blank. -/
theorem isBlank_eq_false_of_isAlpha (h : c.isAlpha) : isBlank c = false :=
  isBlank_eq_false_of_isNameChar (isNameChar_of_isAlpha h)

/-- A blank is no letter. -/
theorem isAlpha_eq_false_of_isBlank (h : isBlank c) : c.isAlpha = false := by
  by_contra halpha
  rw [isBlank_eq_false_of_isAlpha (by simpa using halpha)] at h
  cases h

/-- A digit is no letter. -/
theorem isAlpha_eq_false_of_isDigit (h : c.isDigit) : c.isAlpha = false := by
  rw [Char.isDigit_iff_toNat] at h
  have hnine : '9'.toNat = 57 := rfl
  by_contra halpha
  have hrange := isNameStart_iff_toNat.1 (isNameStart_of_isAlpha (by simpa using halpha))
  omega

/-- A letter is one byte long. -/
theorem utf8Size_of_isAlpha (h : c.isAlpha) : c.utf8Size = 1 := by
  have hrange := isNameStart_iff_toNat.1 (isNameStart_of_isAlpha h)
  have hascii : c.toNat ≤ 127 := by omega
  rw [Char.utf8Size_eq_one_iff, UInt32.le_iff_toNat_le]
  exact hascii

end

namespace SameLetters

variable {cs cs' ds ds' : List Char}

theorem symm (h : SameLetters cs cs') : SameLetters cs' cs :=
  Eq.symm h

/-- Texts that are the same but for case have as many characters. -/
theorem length_eq (h : SameLetters cs cs') : cs.length = cs'.length := by
  simpa using congrArg List.length h

theorem append (h : SameLetters cs cs') (h' : SameLetters ds ds') :
    SameLetters (cs ++ ds) (cs' ++ ds') := by
  rw [SameLetters, List.map_append, List.map_append, h, h']

/-- A text with the same letters has the same parts. -/
theorem exists_append (h : SameLetters (cs ++ ds) cs') :
    ∃ bs bs', cs' = bs ++ bs' ∧ SameLetters cs bs ∧ SameLetters ds bs' := by
  rw [SameLetters, List.map_append] at h
  obtain ⟨bs, bs', rfl, hbs, hbs'⟩ := List.map_eq_append_iff.1 h.symm
  exact ⟨bs, bs', rfl, hbs.symm, hbs'.symm⟩

/-- The first characters are the same but for case, and so are the rest. -/
theorem exists_cons {c : Char} (h : SameLetters (c :: cs) cs') :
    ∃ d ds, cs' = d :: ds ∧ c.toLower = d.toLower ∧ SameLetters cs ds := by
  obtain ⟨d, ds, rfl, hd, hds⟩ := List.map_eq_cons_iff.1 (Eq.symm h)
  exact ⟨d, ds, rfl, hd.symm, hds.symm⟩

/-- Without letters, nothing has another case. -/
theorem eq_of_forall (h : SameLetters cs cs') (hcs : ∀ c ∈ cs, c.isAlpha = false) : cs' = cs := by
  induction cs generalizing cs' with
  | nil => exact List.map_eq_nil_iff.1 (Eq.symm h)
  | cons c cs ih =>
    obtain ⟨hc, hcs⟩ := List.forall_mem_cons.1 hcs
    obtain ⟨d, ds, rfl, hd, hds⟩ := h.exists_cons
    rw [← eq_of_toLower_eq hd hc, ih hds hcs]

/-- What holds or fails of all letters alike holds of all characters of both texts or of neither. -/
theorem forall_mem_iff {p : Char → Bool} {b : Bool} (hp : ∀ c : Char, c.isAlpha → p c = b)
    (h : SameLetters cs cs') : (∀ c ∈ cs, p c) ↔ ∀ c ∈ cs', p c := by
  induction cs generalizing cs' with
  | nil => rw [List.map_eq_nil_iff.1 (Eq.symm h)]
  | cons c cs ih =>
    obtain ⟨d, ds, rfl, hd, hds⟩ := h.exists_cons
    rw [List.forall_mem_cons, List.forall_mem_cons, ih hds, apply_eq_of_toLower_eq hp hd]

/-- A name is one in any case. -/
theorem exists_name {c : Char} (h : SameLetters (c :: cs) cs') (hc : isNameStart c)
    (hcs : ∀ d ∈ cs, isNameChar d) :
    ∃ d ds, cs' = d :: ds ∧ isNameStart d ∧ ∀ e ∈ ds, isNameChar e := by
  obtain ⟨d, ds, rfl, hd, hds⟩ := h.exists_cons
  rw [apply_eq_of_toLower_eq (fun _ => isNameStart_of_isAlpha) hd] at hc
  exact ⟨d, ds, rfl, hc, (hds.forall_mem_iff fun _ => isNameChar_of_isAlpha).1 hcs⟩

/-- Texts that are the same but for case are as long in bytes. -/
theorem byteSize_eq (h : SameLetters cs cs') : byteSize cs = byteSize cs' := by
  induction cs generalizing cs' with
  | nil => rw [List.map_eq_nil_iff.1 (Eq.symm h)]
  | cons c cs ih =>
    obtain ⟨d, ds, rfl, hd, hds⟩ := h.exists_cons
    rw [byteSize_cons, byteSize_cons, ih hds,
      apply_eq_of_toLower_eq (f := Char.utf8Size) (fun _ => utf8Size_of_isAlpha) hd]

end SameLetters

/-! ### Tokens in another case -/

/-- Two tokens are the **same but for the case** of a name. -/
inductive Token.SameButCase : Token → Token → Prop
  | self (t : Token) : Token.SameButCase t t
  | name {s s' : String} : sameButCase s s' → Token.SameButCase (.name s) (.name s')

/-- There is no letter among digits. -/
theorem isAlpha_eq_false_of_digits {cs : List Char} (h : ∀ c ∈ cs, c.isDigit) :
    ∀ c ∈ cs, c.isAlpha = false :=
  fun c hc => isAlpha_eq_false_of_isDigit (h c hc)

/-- The mark of an exponent may have either case. -/
theorem Exponent.Valid.exists_of_sameLetters {e : Exponent} (he : e.Valid) {w : List Char}
    (h : SameLetters e.text w) : ∃ f : Exponent, f.Valid ∧ f.text = w ∧ f.value = e.value := by
  have hrest : ∀ c ∈ e.sign.toList ++ e.digits, c.isAlpha = false := by
    intro c hc
    rcases List.mem_append.1 hc with hc | hc
    · rcases he.sign c (by simpa using hc) with rfl | rfl <;> rfl
    · exact isAlpha_eq_false_of_digits he.digits c hc
  obtain ⟨mark, rest, rfl, hmark, hsame⟩ := h.exists_cons
  obtain rfl := hsame.eq_of_forall hrest
  have hmark' : mark = 'e' ∨ mark = 'E' := by
    rcases he.mark with heq | heq <;> rw [heq] at hmark <;> exact eq_toLower_or_eq_toUpper hmark
  exact ⟨⟨mark, e.sign, e.digits⟩, ⟨hmark', he.sign, he.digits, he.digits_ne_nil⟩, rfl, rfl⟩

/-- A numeral has letters only in its exponent, and it means the same in any case. -/
theorem Numeral.Valid.exists_of_sameLetters {n : Numeral} (hn : n.Valid) {w : List Char}
    (h : SameLetters n.text w) : ∃ m : Numeral, m.Valid ∧ m.text = w ∧ m.value = n.value := by
  obtain ⟨whole, fraction, exponent⟩ := n
  have hfront : ∀ c ∈ whole ++ (fraction.map ('.' :: ·)).getD [], c.isAlpha = false := by
    intro c hc
    rcases List.mem_append.1 hc with hc | hc
    · exact isAlpha_eq_false_of_digits hn.whole c hc
    · cases fraction with
      | none => cases hc
      | some fraction =>
        rcases List.mem_cons.1 hc with rfl | hc
        · rfl
        · exact isAlpha_eq_false_of_digits (hn.fraction fraction rfl) c hc
  obtain ⟨front, tail, rfl, hsame, htail⟩ := h.exists_append
  obtain rfl := hsame.eq_of_forall hfront
  cases exponent with
  | none =>
    obtain rfl := htail.eq_of_forall (by simp)
    exact ⟨⟨whole, fraction, none⟩, hn, rfl, rfl⟩
  | some e =>
    obtain ⟨f, hf, rfl, hvalue⟩ := (hn.exponent e rfl).exists_of_sameLetters htail
    refine ⟨⟨whole, fraction, some f⟩,
      ⟨hn.whole, hn.fraction, hn.digit, by simpa using hf⟩, rfl, ?_⟩
    simp [Numeral.value, Numeral.mantissa, Numeral.scale, hvalue]

/-- A token without letters is spelled in one way. -/
theorem Spells.exists_of_no_letters {t : Token} {w w' : List Char} (h : Spells t w)
    (hw : SameLetters w w') (hletters : ∀ c ∈ w, c.isAlpha = false) :
    ∃ t', Spells t' w' ∧ (w.head? ≠ some '$' → t.SameButCase t') :=
  ⟨t, hw.eq_of_forall hletters ▸ h, fun _ => .self t⟩

/-- **Letters in another case spell a token of the same class**, and the same one but for a name or
the name of a placeholder. -/
theorem Spells.exists_of_sameLetters {t : Token} {w w' : List Char} (h : Spells t w)
    (hw : SameLetters w w') :
    ∃ t', Spells t' w' ∧ (w.head? ≠ some '$' → t.SameButCase t') := by
  cases h with
  | number hn =>
    obtain ⟨m, hm, rfl, hvalue⟩ := hn.exists_of_sameLetters hw
    exact ⟨_, .number hm, fun _ => hvalue ▸ .self _⟩
  | name hc hcs =>
    obtain ⟨d, ds, rfl, hd, hds⟩ := hw.exists_name hc hcs
    refine ⟨_, .name hd hds, fun _ => .name ?_⟩
    rw [sameButCase, String.toList_ofList, String.toList_ofList]
    exact beq_iff_eq.2 hw
  | placeholder hc hcs =>
    obtain ⟨_, name, rfl, hdollar, hname⟩ := hw.exists_cons
    obtain rfl := eq_of_toLower_eq hdollar rfl
    obtain ⟨d, ds, rfl, hd, hds⟩ := hname.exists_name hc hcs
    exact ⟨_, .placeholder hd hds, fun hhead => absurd rfl hhead⟩
  | operator op =>
    -- Symbols have no letters, and so only one case.
    refine (Spells.operator op).exists_of_no_letters hw ?_
    cases op <;> exact List.forall_mem_singleton.2 rfl
  | asterisks =>
    refine Spells.asterisks.exists_of_no_letters hw ?_
    exact List.forall_mem_cons.2 ⟨rfl, List.forall_mem_singleton.2 rfl⟩
  | openParen => exact Spells.openParen.exists_of_no_letters hw (List.forall_mem_singleton.2 rfl)
  | closeParen => exact Spells.closeParen.exists_of_no_letters hw (List.forall_mem_singleton.2 rfl)
  | comma => exact Spells.comma.exists_of_no_letters hw (List.forall_mem_singleton.2 rfl)

/-! ### Formulas in another case -/

/-- Two texts are the same but for the case of ASCII letters that are **in no placeholder** of the
first one: each `$name` of it stands in the second one as it is. -/
structure Recases (text text' : List Char) : Prop where
  letters : SameLetters text text'
  placeholder (before name after : List Char) : text = before ++ '$' :: (name ++ after) →
    isName (String.ofList name) →
      ∃ before' after', text' = before' ++ '$' :: (name ++ after') ∧ before'.length = before.length

/-- What is behind a part of the same length is again the same. -/
theorem Recases.drop {w w' text text' : List Char} (h : Recases (w ++ text) (w' ++ text'))
    (hw : w.length = w'.length) : Recases text text' := by
  constructor
  · have hletters := h.letters
    rw [SameLetters, List.map_append, List.map_append] at hletters
    exact (List.append_inj hletters (by rw [List.length_map, List.length_map, hw])).2
  · intro before name after htext hname
    rw [htext, ← List.append_assoc] at h
    obtain ⟨front, rest, heq, hlength⟩ := h.placeholder _ _ _ rfl hname
    rw [List.length_append, hw] at hlength
    obtain ⟨before', rfl⟩ : w' <+: front :=
      List.prefix_of_prefix_length_le (List.prefix_append w' text') ⟨_, heq.symm⟩ (by omega)
    rw [List.append_assoc, List.append_cancel_left_eq] at heq
    rw [List.length_append] at hlength
    exact ⟨before', rest, heq, by omega⟩

/-! ### How formulas in another case are made up -/

/-- The empty text is recased to itself. -/
theorem Recases.nil : Recases [] [] :=
  ⟨rfl, by simp⟩

/-- A dollar sign that is not in the front of a text is behind it. -/
theorem exists_eq_append_of_dollar {w text before rest : List Char} (hw : '$' ∉ w)
    (h : w ++ text = before ++ '$' :: rest) :
    ∃ front, before = w ++ front ∧ text = front ++ '$' :: rest := by
  rcases List.append_eq_append_iff.1 h with ⟨front, rfl, htext⟩ | ⟨more, rfl, hmore⟩
  · exact ⟨front, rfl, htext⟩
  · cases more with
    | nil => exact ⟨[], by simp, hmore.symm⟩
    | cons c more =>
      obtain ⟨rfl, -⟩ := List.cons.inj hmore
      simp at hw

/-- Text without a dollar sign may have any letters in another case. -/
theorem Recases.letters_append {w w' text text' : List Char} (h : Recases text text')
    (hletters : SameLetters w w') (hw : '$' ∉ w) : Recases (w ++ text) (w' ++ text') := by
  refine ⟨hletters.append h.letters, fun before name after htext hname => ?_⟩
  obtain ⟨front, rfl, hfront⟩ := exists_eq_append_of_dollar hw htext
  obtain ⟨front', after', rfl, hlength⟩ := h.placeholder front name after hfront hname
  refine ⟨w' ++ front', after', by rw [List.append_assoc], ?_⟩
  rw [List.length_append, List.length_append, hlength, hletters.length_eq]

/-- Placeholders stay as they are. -/
theorem Recases.placeholder_append {name text text' : List Char} (h : Recases text text')
    (hname : ∀ c ∈ name, isNameChar c) (htext : ∀ c ∈ text.head?, isNameChar c = false) :
    Recases ('$' :: (name ++ text)) ('$' :: (name ++ text')) := by
  have hdollar : '$' ∉ name := fun hmem => absurd (hname _ hmem) (by decide)
  have hrest : Recases (name ++ text) (name ++ text') := h.letters_append rfl hdollar
  refine ⟨congrArg ('$'.toLower :: ·) hrest.letters, fun before part after heq hpart => ?_⟩
  cases before with
  | nil =>
    -- The name in front goes as far as any part of it that is a name.
    obtain ⟨-, heq⟩ := List.cons.inj heq
    have hchars := isNameChar_of_isName hpart
    rw [String.toList_ofList] at hchars
    have hwhole := takeWhile_append_stop hname htext
    rw [heq, List.takeWhile_append_of_pos hchars] at hwhole
    refine ⟨[], after.takeWhile isNameChar ++ text', ?_, rfl⟩
    rw [← hwhole, List.append_assoc]
    rfl
  | cons c before =>
    rw [List.cons_append, List.cons.injEq] at heq
    obtain ⟨rfl, heq⟩ := heq
    obtain ⟨before', after', heq', hlength⟩ := hrest.placeholder before part after heq hpart
    exact ⟨'$' :: before', after', by rw [heq']; rfl, by simpa using hlength⟩

section

variable {t : Token} {w text text' : List Char}

/-- A token at the front of one text has one of the same length at the front of the other. -/
theorem Spells.exists_isPrefix_of_sameLetters (h : Spells t w) (hw : w <+: text)
    (htext : SameLetters text text') :
    ∃ t' w', Spells t' w' ∧ w' <+: text' ∧ w'.length = w.length := by
  obtain ⟨rest, rfl⟩ := hw
  obtain ⟨w', rest', rfl, hletters, -⟩ := htext.exists_append
  obtain ⟨t', ht', -⟩ := h.exists_of_sameLetters hletters
  exact ⟨t', w', ht', List.prefix_append w' rest', hletters.length_eq.symm⟩

/-- A placeholder at the front of a text is at the front of the other. -/
theorem Recases.isPrefix_of_placeholder {name : String} (h : Recases text text')
    (hname : isName name)
    (hw : '$' :: name.toList <+: text) : '$' :: name.toList <+: text' := by
  obtain ⟨after, hafter⟩ := hw
  obtain ⟨front, after', rfl, hfront⟩ := h.placeholder [] name.toList after hafter.symm
    (by rwa [String.ofList_toList])
  obtain rfl := List.length_eq_zero_iff.1 hfront
  exact ⟨after', rfl⟩

/-- **The longest token** at the front of a text is so in another case. -/
theorem Longest.exists_of_recases (h : Longest t w text) (htext : Recases text text') :
    ∃ t' w', Longest t' w' text' ∧ t.SameButCase t' ∧ SameLetters w w' := by
  obtain ⟨after, hafter⟩ := h.isPrefix
  obtain ⟨w', after', htext', hw, -⟩ := (hafter ▸ htext.letters).exists_append
  have hfront : w' <+: text' := ⟨after', htext'.symm⟩
  have hlongest : ∀ {t'}, Spells t' w' → Longest t' w' text' := by
    refine fun ht' => ⟨ht', hfront, fun hs hv => ?_⟩
    obtain ⟨_, _, hs', hv', hlength⟩ := hs.exists_isPrefix_of_sameLetters hv htext.letters.symm
    rw [← hlength, ← hw.length_eq]
    exact h.length_le hs' hv'
  by_cases hname : ∃ name, t = .placeholder name
  · -- The placeholder stands there as it is.
    obtain ⟨name, rfl⟩ := hname
    obtain ⟨hname, rfl⟩ := spells_placeholder_iff.1 h.spells
    obtain rfl : w' = '$' :: name.toList :=
      (List.prefix_of_prefix_length_le hfront (htext.isPrefix_of_placeholder hname h.isPrefix)
        hw.length_eq.ge).eq_of_length hw.length_eq.symm
    exact ⟨_, _, hlongest h.spells, .self _, hw⟩
  · obtain ⟨t', ht', hsame⟩ := h.spells.exists_of_sameLetters hw
    exact ⟨t', w', hlongest ht', hsame (h.spells.head?_ne_dollar (not_exists.1 hname)), hw⟩

/-- **Text is stuck** in either case, and at the same character: it is no letter. -/
theorem Stuck.exists_of_sameLetters {c : Char} (h : Stuck (c :: text))
    (htext : SameLetters (c :: text) text') : ∃ rest, text' = c :: rest ∧ Stuck text' := by
  obtain ⟨d, rest, rfl, hd, -⟩ := htext.exists_cons
  have hc : c.isAlpha = false := by
    by_contra halpha
    have hname : Spells (.name (String.ofList [c])) [c] :=
      .name (isNameStart_of_isAlpha (by simpa using halpha)) (by simp)
    exact h.2 _ _ hname (List.cons_prefix_cons.2 ⟨rfl, List.nil_prefix⟩)
  obtain rfl := eq_of_toLower_eq hd hc
  refine ⟨rest, rfl, h.1, fun t w hs hw => ?_⟩
  obtain ⟨t', w', hs', hw', -⟩ := hs.exists_isPrefix_of_sameLetters hw htext.symm
  exact h.2 t' w' hs' hw'

/-! ### The scanner -/

/-- Two lexemes are at the same place, and the **same but for the case** of a name. -/
structure Lexeme.SameButCase (l l' : Lexeme) : Prop where
  token : l.token.SameButCase l'.token
  start : l.start = l'.start
  stop : l.stop = l'.stop

/-- **A text in another case is scanned in step.** -/
theorem scanFrom_agree (offset : Nat) (h : Recases text text') :
    Agree (fun _ => False) Eq (List.Forall₂ Lexeme.SameButCase) (scanFrom offset text)
      (scanFrom offset text') := by
  -- Every step leaves fewer characters.
  induction hlen : text.length using Nat.strong_induction_on generalizing offset text text' with
  | _ len ih =>
    cases text with
    | nil =>
      obtain rfl : text' = [] := List.map_eq_nil_iff.1 (Eq.symm h.letters)
      rw [scanFrom_nil]
      exact .ok (.cons ⟨.self _, rfl, rfl⟩ .nil)
    | cons c rest =>
      rcases step_or_stuck c rest with hblank | ⟨t, w, after, heq, hlongest⟩ | hstuck
      · obtain ⟨d, rest', rfl, hd, -⟩ := h.letters.exists_cons
        obtain rfl := eq_of_toLower_eq hd (isAlpha_eq_false_of_isBlank hblank)
        rw [scanFrom_blank hblank, scanFrom_blank hblank]
        have hrest : Recases ([c] ++ rest) ([c] ++ rest') := h
        exact ih _ (by simp [← hlen]) _ (hrest.drop rfl) rfl
      · have hpos := List.length_pos_iff.2 hlongest.spells.ne_nil
        rw [heq] at h hlen ⊢
        rw [List.length_append] at hlen
        obtain ⟨t', w', hlongest', ht, hw⟩ := hlongest.exists_of_recases h
        obtain ⟨after', rfl⟩ := hlongest'.isPrefix
        have hagree := ih _ (by omega) (offset + byteSize w) (h.drop hw.length_eq) rfl
        rw [scanFrom_token hlongest, scanFrom_token hlongest', ← hw.byteSize_eq]
        refine hagree.map fun _ _ hlexemes => .cons ⟨ht, rfl, ?_⟩ hlexemes
        rw [stop_ofList, stop_ofList, hw.byteSize_eq]
      · obtain ⟨rest', rfl, hstuck'⟩ := hstuck.exists_of_sameLetters h.letters
        rw [scanFrom_stuck hstuck, scanFrom_stuck hstuck']
        exact .error rfl

end

end Reckoner
