import Mathlib
import Reckoner.Proofs.Scanning.Numerals
import Reckoner.Token.Scan

/-!
# The Longest Token

Which texts are tokens, said without a scanner, and what it means that a token is the **longest**
one at the front of a text. The scanner finds it: whether a text opens with a token is decided by
its first character, but for a numeral that opens with a point and for a placeholder, and each class
is scanned as far as it goes.

Main definitions:

* `Spells`: a text spells a token;
* `isName`: a text is what a constant, a function or a placeholder may be called;
* `Longest`: a text spells a token, and is the longest one at the front of a text that does.

Main results:

* `scan?_eq_some_iff`: the scanner finds the longest token;
* `scan?_eq_none_iff`: it finds none if and only if there is none;
* `Longest.cut`: what follows the longest token has no part in it.
-/

namespace Reckoner

/-! ### The classes of tokens -/

/-- A text **spells** a token. -/
inductive Spells : Token → List Char → Prop
  | number {n : Numeral} : n.Valid → Spells (.number n.value) n.text
  | name {c : Char} {cs : List Char} : isNameStart c → (∀ d ∈ cs, isNameChar d) →
      Spells (.name (String.ofList (c :: cs))) (c :: cs)
  | placeholder {c : Char} {cs : List Char} : isNameStart c → (∀ d ∈ cs, isNameChar d) →
      Spells (.placeholder (String.ofList (c :: cs))) ('$' :: c :: cs)
  | asterisks : Spells (.operator .pow) ['*', '*']
  | operator (op : Operator) : Spells (.operator op) [op.symbol]
  | openParen : Spells .openParen ['(']
  | closeParen : Spells .closeParen [')']
  | comma : Spells .comma [',']

/-- Whether a text is a **name**, `[A-Za-z_][A-Za-z0-9_]*`. -/
def isName (s : String) : Bool :=
  match s.toList with
  | [] => false
  | c :: cs => isNameStart c && cs.all isNameChar

/-- The text `w` spells a token, and is the **longest** one at the front of `text` that does. -/
structure Longest (t : Token) (w text : List Char) : Prop where
  spells : Spells t w
  isPrefix : w <+: text
  length_le {t' : Token} {w' : List Char} : Spells t' w' → w' <+: text → w'.length ≤ w.length

/-- The longest token is still the longest one when what follows it is cut off. -/
theorem Longest.cut {t : Token} {w text text' : List Char} (h : Longest t w text)
    (hw : w <+: text') (htext : text' <+: text) : Longest t w text' :=
  ⟨h.spells, hw, fun hs hw' => h.length_le hs (hw'.trans htext)⟩

/-! ### Characters of tokens -/

/-- Visible ASCII characters are not blank. -/
theorem isBlank_eq_false {c : Char} (h : 0x21 ≤ c.toNat) (h' : c.toNat ≤ 0x7e) :
    isBlank c = false := by
  simp [isBlank, blankRanges]
  omega

/-- Names open with an ASCII letter or an underscore. -/
theorem isNameStart_iff_toNat {c : Char} : isNameStart c ↔
    (65 ≤ c.toNat ∧ c.toNat ≤ 90) ∨ (97 ≤ c.toNat ∧ c.toNat ≤ 122) ∨ c.toNat = 95 := by
  have hunderscore : c = '_' ↔ c.toNat = 95 := Char.toNat_inj.symm
  simp only [isNameStart, Char.isAlpha, Char.isUpper, Char.isLower, Bool.or_eq_true,
    Bool.and_eq_true, decide_eq_true_eq, beq_iff_eq, ge_iff_le, hunderscore, or_assoc]
  exact Iff.rfl

/-- A character continues a name if it opens one or is a digit. -/
theorem isNameChar_iff {c : Char} : isNameChar c ↔ isNameStart c ∨ c.isDigit := by
  simp only [isNameChar, isNameStart, Char.isAlphanum, Bool.or_eq_true]
  tauto

/-- A character of a name is not blank. -/
theorem isBlank_eq_false_of_isNameChar {c : Char} (h : isNameChar c) : isBlank c = false := by
  rw [isNameChar_iff, isNameStart_iff_toNat, Char.isDigit_iff_toNat] at h
  have hzero : '0'.toNat = 48 := rfl
  have hnine : '9'.toNat = 57 := rfl
  exact isBlank_eq_false (by omega) (by omega)

/-- A digit is not blank. -/
theorem isBlank_eq_false_of_isDigit {c : Char} (h : c.isDigit) : isBlank c = false :=
  isBlank_eq_false_of_isNameChar (isNameChar_iff.2 (.inr h))

/-- An exponent has no blank in it. -/
theorem Exponent.Valid.isBlank_eq_false {e : Exponent} (he : e.Valid) :
    ∀ c ∈ e.text, isBlank c = false := by
  simp only [Exponent.text, List.mem_cons, List.mem_append, Option.mem_toList]
  rintro c (rfl | hc | hc)
  · rcases he.mark with h | h <;> rw [h] <;> rfl
  · rcases he.sign c hc with rfl | rfl <;> rfl
  · exact isBlank_eq_false_of_isDigit (he.digits c hc)

/-- A numeral has no blank in it. -/
theorem Numeral.Valid.isBlank_eq_false {n : Numeral} (hn : n.Valid) :
    ∀ c ∈ n.text, isBlank c = false := by
  obtain ⟨whole, fraction, exponent⟩ := n
  simp only [Numeral.text, List.mem_append]
  rintro c ((hc | hc) | hc)
  · exact isBlank_eq_false_of_isDigit (hn.whole c hc)
  · cases fraction with
    | none => simp at hc
    | some fraction =>
      rcases List.mem_cons.1 hc with rfl | hc
      · rfl
      · exact isBlank_eq_false_of_isDigit (hn.fraction fraction rfl c hc)
  · cases exponent with
    | none => simp at hc
    | some e => exact (hn.exponent e rfl).isBlank_eq_false c hc

/-- Tokens have no blanks in them. -/
theorem Spells.isBlank_eq_false {t : Token} {w : List Char} (h : Spells t w) :
    ∀ c ∈ w, isBlank c = false := by
  have hname : ∀ {c : Char} {cs : List Char}, isNameStart c → (∀ d ∈ cs, isNameChar d) →
      ∀ d ∈ c :: cs, isBlank d = false := by
    intro c cs hc hcs d hd
    rcases List.mem_cons.1 hd with rfl | hd
    · exact isBlank_eq_false_of_isNameChar (isNameChar_of_isNameStart hc)
    · exact isBlank_eq_false_of_isNameChar (hcs d hd)
  cases h with
  | number hn => exact hn.isBlank_eq_false
  | name hc hcs => exact hname hc hcs
  | placeholder hc hcs =>
    intro d hd
    rcases List.mem_cons.1 hd with rfl | hd
    · rfl
    · exact hname hc hcs d hd
  | operator op => cases op <;> exact List.forall_mem_singleton.2 rfl
  | asterisks => exact List.forall_mem_cons.2 ⟨rfl, List.forall_mem_singleton.2 rfl⟩
  | openParen | closeParen | comma => exact List.forall_mem_singleton.2 rfl

/-- A token is spelled by at least one character. -/
theorem Spells.ne_nil {t : Token} {w : List Char} (h : Spells t w) : w ≠ [] := by
  cases h with
  | number hn =>
    obtain ⟨c, cs, htext, -⟩ := Numeral.exists_text_eq_cons hn
    simp [htext]
  | _ => simp

/-- Of all tokens, only placeholders open with a dollar sign. -/
theorem Spells.head?_ne_dollar {t : Token} {w : List Char} (h : Spells t w)
    (ht : ∀ name, t ≠ .placeholder name) : w.head? ≠ some '$' := by
  cases h with
  | number hn =>
    obtain ⟨c, cs, htext, hc⟩ := Numeral.exists_text_eq_cons hn
    rw [htext]
    rintro ⟨⟩
    simp at hc
  | name hc _ =>
    rintro ⟨⟩
    exact absurd hc (by decide)
  | placeholder _ _ => exact absurd rfl (ht _)
  | operator op => cases op <;> decide
  | asterisks | openParen | closeParen | comma => decide

/-! ### Names -/

/-- A name is a character that opens one, with characters that continue it. -/
theorem isName_iff {s : String} : isName s ↔
    ∃ c cs, s.toList = c :: cs ∧ isNameStart c ∧ ∀ d ∈ cs, isNameChar d := by
  unfold isName
  split
  · next h => simp [h]
  · next c cs h => simp [h]

/-- The characters of a name are name characters. -/
theorem isNameChar_of_isName {s : String} (h : isName s) : ∀ d ∈ s.toList, isNameChar d := by
  obtain ⟨c, cs, hs, hc, hcs⟩ := isName_iff.1 h
  rw [hs]
  exact List.forall_mem_cons.2 ⟨isNameChar_of_isNameStart hc, hcs⟩

/-- A name is spelled by itself. -/
theorem spells_name_iff {s : String} {w : List Char} :
    Spells (.name s) w ↔ isName s ∧ w = s.toList := by
  rw [isName_iff]
  constructor
  · intro h
    cases h with
    | @name c cs hc hcs => exact ⟨⟨c, cs, String.toList_ofList, hc, hcs⟩, String.toList_ofList.symm⟩
  · rintro ⟨⟨c, cs, hs, hc, hcs⟩, rfl⟩
    have hspells := Spells.name hc hcs
    rwa [← hs, String.ofList_toList] at hspells

/-- A placeholder is spelled by a dollar sign and its name. -/
theorem spells_placeholder_iff {s : String} {w : List Char} :
    Spells (.placeholder s) w ↔ isName s ∧ w = '$' :: s.toList := by
  rw [isName_iff]
  constructor
  · intro h
    cases h with
    | @placeholder c cs hc hcs =>
      exact ⟨⟨c, cs, String.toList_ofList, hc, hcs⟩, by rw [String.toList_ofList]⟩
  · rintro ⟨⟨c, cs, hs, hc, hcs⟩, rfl⟩
    have hspells := Spells.placeholder hc hcs
    rwa [← hs, String.ofList_toList] at hspells

/-! ### One equation for each way a token opens -/

/-- A symbol by itself spells its token, and opens no other class. -/
theorem symbolToken?_eq_some {c : Char} {t : Token} (h : symbolToken? c = some t) :
    Spells t [c] ∧ isNameStart c = false ∧ c.isDigit = false ∧ c ≠ '.' ∧ c ≠ '$' := by
  unfold symbolToken? at h
  split at h
  all_goals cases h
  · exact ⟨.operator .add, by decide⟩
  · exact ⟨.operator .sub, by decide⟩
  · exact ⟨.operator .mul, by decide⟩
  · exact ⟨.operator .div, by decide⟩
  · exact ⟨.operator .pow, by decide⟩
  · exact ⟨.openParen, by decide⟩
  · exact ⟨.closeParen, by decide⟩
  · exact ⟨.comma, by decide⟩

/-- The symbol of an operator is its token. -/
theorem symbolToken?_symbol (op : Operator) : symbolToken? op.symbol = some (.operator op) := by
  cases op <;> rfl

/-- What opens a name, a numeral or a placeholder is no symbol. -/
theorem symbolToken?_eq_none {c : Char}
    (h : isNameStart c ∨ c.isDigit ∨ c = '.' ∨ c = '$') : symbolToken? c = none := by
  cases hsymbol : symbolToken? c with
  | none => rfl
  | some t =>
    obtain ⟨-, hname, hdigit, hpoint, hdollar⟩ := symbolToken?_eq_some hsymbol
    simp [hname, hdigit, hpoint, hdollar] at h

/-- What opens a numeral opens no other class. -/
theorem not_opens_of_numeral {c : Char} (hc : c.isDigit ∨ c = '.') :
    symbolToken? c = none ∧ isNameStart c = false ∧ c ≠ '$' := by
  refine ⟨symbolToken?_eq_none (.inr (hc.imp_right .inl)), ?_, ?_⟩
  · rcases hc with hc | rfl
    · have hlow : 48 ≤ c.toNat := (Char.isDigit_iff_toNat.1 hc).1
      have hhigh : c.toNat ≤ 57 := (Char.isDigit_iff_toNat.1 hc).2
      rw [Bool.eq_false_iff, Ne, isNameStart_iff_toNat]
      omega
    · rfl
  · rintro rfl
    simp at hc

/-- A name that is scanned has its first character. -/
theorem scanName_cons {c : Char} (hc : isNameStart c) (rest : List Char) :
    scanName (c :: rest) = c :: scanName rest :=
  List.takeWhile_cons_of_pos (isNameChar_of_isNameStart hc)

/-- A name is scanned through all characters that continue it. -/
theorem scanName_append {cs : List Char} (hcs : ∀ d ∈ cs, isNameChar d) (rest : List Char) :
    scanName (cs ++ rest) = cs ++ scanName rest :=
  List.takeWhile_append_of_pos hcs

namespace Token

/-- Two asterisks are one token. -/
theorem scan?_asterisks (rest : List Char) :
    scan? '*' ('*' :: rest) = some (.operator .pow, ['*']) := by
  simp [scan?]

/-- Any other symbol is a token by itself. -/
theorem scan?_of_symbol {c : Char} {t : Token} (hc : symbolToken? c = some t) {rest : List Char}
    (hrest : ¬ (c = '*' ∧ rest.head? = some '*')) : scan? c rest = some (t, []) := by
  simp only [scan?, if_neg hrest, hc]

/-- A name is scanned as far as it goes. -/
theorem scan?_of_isNameStart {c : Char} (hc : isNameStart c) (rest : List Char) :
    scan? c rest = some (.name (String.ofList (c :: scanName rest)), scanName rest) := by
  have hasterisk : c ≠ '*' := by
    rintro rfl
    exact absurd hc (by decide)
  simp [scan?, hasterisk, symbolToken?_eq_none (.inl hc), hc]

/-- A dollar sign opens a placeholder where a name follows. -/
theorem scan?_dollar_cons (c : Char) (rest : List Char) : scan? '$' (c :: rest) =
    if isNameStart c then some (.placeholder (String.ofList (scanName (c :: rest))),
      scanName (c :: rest)) else none := by
  rfl

theorem scan?_dollar_nil : scan? '$' [] = none := rfl

/-- Where nothing else opens, a numeral does. -/
theorem scan?_of_numeral {c : Char} {rest : List Char} (hc : symbolToken? c = none)
    (hname : isNameStart c = false) (hdollar : c ≠ '$') :
    scan? c rest = (Numeral.scan? (c :: rest)).bind fun p =>
      (Binary64.parse? (String.ofList p.1.text)).map fun x => (.number x, p.1.text.drop 1) := by
  have hasterisk : c ≠ '*' := by
    rintro rfl
    cases hc
  simp only [scan?, hasterisk, false_and, if_false, hc, hname, hdollar]
  cases Numeral.scan? (c :: rest) <;> rfl

/-- What a numeral is scanned as. -/
theorem scan?_eq_of_numeral {c : Char} {rest rest' : List Char} {n : Numeral}
    (hc : symbolToken? c = none) (hname : isNameStart c = false) (hdollar : c ≠ '$')
    (h : Numeral.scan? (c :: rest) = some (n, rest')) :
    ∃ tail, n.text = c :: tail ∧ rest = tail ++ rest' ∧
      scan? c rest = some (.number n.value, tail) := by
  have hvalid := Numeral.valid_of_scan? h
  obtain ⟨c', tail, htext, -⟩ := Numeral.exists_text_eq_cons hvalid
  have happend := Numeral.text_append_scan? h
  rw [htext, List.cons_append, List.cons.injEq] at happend
  obtain ⟨rfl, hrest⟩ := happend
  refine ⟨tail, htext, hrest.symm, ?_⟩
  rw [scan?_of_numeral hc hname hdollar, h, Option.bind_some, Numeral.parse?_text hvalid,
    Option.map_some, htext, List.drop_succ_cons, List.drop_zero]

/-! ### The scanner finds the longest token -/

/-- What is scanned spells its token, at the front of the text. -/
theorem spells_of_scan? {c : Char} {rest tail : List Char} {t : Token}
    (h : scan? c rest = some (t, tail)) : Spells t (c :: tail) ∧ tail <+: rest := by
  -- The cases of the scanner in their order: a symbol, a name, a placeholder, a numeral.
  by_cases hasterisks : c = '*' ∧ rest.head? = some '*'
  · obtain ⟨rfl, hhead⟩ := hasterisks
    obtain ⟨rest, rfl⟩ := List.head?_eq_some_iff.1 hhead
    rw [scan?_asterisks] at h
    obtain ⟨rfl, rfl⟩ := Prod.mk.inj (Option.some.inj h)
    exact ⟨.asterisks, rest, rfl⟩
  cases hsymbol : symbolToken? c with
  | some t' =>
    rw [scan?_of_symbol hsymbol hasterisks] at h
    obtain ⟨rfl, rfl⟩ := Prod.mk.inj (Option.some.inj h)
    exact ⟨(symbolToken?_eq_some hsymbol).1, List.nil_prefix⟩
  | none =>
    by_cases hname : isNameStart c
    · rw [scan?_of_isNameStart hname] at h
      obtain ⟨rfl, rfl⟩ := Prod.mk.inj (Option.some.inj h)
      exact ⟨.name hname fun d hd => List.mem_takeWhile_imp hd, List.takeWhile_prefix _⟩
    by_cases hdollar : c = '$'
    · subst hdollar
      cases rest with
      | nil => simp [scan?_dollar_nil] at h
      | cons d rest =>
        rw [scan?_dollar_cons] at h
        split_ifs at h with hd
        obtain ⟨rfl, rfl⟩ := Prod.mk.inj (Option.some.inj h)
        rw [scanName_cons hd]
        exact ⟨.placeholder hd fun d hd => List.mem_takeWhile_imp hd,
          List.cons_prefix_cons.2 ⟨rfl, List.takeWhile_prefix _⟩⟩
    · have hname' : isNameStart c = false := by simpa using hname
      cases hnumeral : Numeral.scan? (c :: rest) with
      | none => simp [scan?_of_numeral hsymbol hname' hdollar, hnumeral] at h
      | some p =>
        obtain ⟨n, rest'⟩ := p
        obtain ⟨tail', htext, rfl, hscan⟩ := scan?_eq_of_numeral hsymbol hname' hdollar hnumeral
        obtain ⟨rfl, rfl⟩ := Prod.mk.inj (Option.some.inj (hscan.symm.trans h))
        exact ⟨htext ▸ .number (Numeral.valid_of_scan? hnumeral), List.prefix_append _ _⟩

/-- **A token is scanned, or a longer one**, in front of any text. -/
theorem scan?_append {c : Char} {tail : List Char} {t : Token} (h : Spells t (c :: tail))
    (rest : List Char) : ∃ t' tail', scan? c (tail ++ rest) = some (t', tail') ∧
      (t' = t ∧ tail' = tail ∨ tail.length < tail'.length) := by
  generalize hw : c :: tail = w at h
  cases h with
  | number hn =>
    obtain ⟨c', cs, htext, hopens⟩ := Numeral.exists_text_eq_cons hn
    obtain ⟨rfl, rfl⟩ := List.cons.inj (hw.trans htext)
    obtain ⟨hsymbol, hname, hdollar⟩ := not_opens_of_numeral hopens
    obtain ⟨m, rest', hscan, hm⟩ := Numeral.scan?_append hn rest
    rw [htext, List.cons_append] at hscan
    obtain ⟨tail', htext', -, hscan'⟩ := scan?_eq_of_numeral hsymbol hname hdollar hscan
    refine ⟨_, tail', hscan', ?_⟩
    -- What follows ends the numeral, or makes it longer.
    rcases hm with rfl | hlt
    · exact .inl ⟨rfl, (List.cons.inj (htext'.symm.trans htext)).2⟩
    · right
      simpa [htext, htext'] using hlt
  | name hc hcs =>
    obtain ⟨rfl, rfl⟩ := List.cons.inj hw
    refine ⟨_, _, scan?_of_isNameStart hc _, ?_⟩
    rw [scanName_append hcs]
    cases scanName rest <;> simp
  | placeholder hc hcs =>
    obtain ⟨rfl, rfl⟩ := List.cons.inj hw
    rw [List.cons_append, scan?_dollar_cons, if_pos hc, scanName_cons hc, scanName_append hcs]
    refine ⟨_, _, rfl, ?_⟩
    cases scanName rest <;> simp
  | asterisks =>
    obtain ⟨rfl, rfl⟩ := List.cons.inj hw
    exact ⟨_, _, scan?_asterisks rest, .inl ⟨rfl, rfl⟩⟩
  | operator op =>
    obtain ⟨rfl, rfl⟩ := List.cons.inj hw
    -- An asterisk in front of another one is half of a power sign.
    by_cases hasterisks : op.symbol = '*' ∧ rest.head? = some '*'
    · obtain ⟨hop, hhead⟩ := hasterisks
      obtain ⟨rest, rfl⟩ := List.head?_eq_some_iff.1 hhead
      rw [hop]
      exact ⟨_, _, scan?_asterisks rest, .inr (by simp)⟩
    · exact ⟨_, _, scan?_of_symbol (symbolToken?_symbol op) hasterisks, .inl ⟨rfl, rfl⟩⟩
  | openParen | closeParen | comma =>
    obtain ⟨rfl, rfl⟩ := List.cons.inj hw
    exact ⟨_, _, scan?_of_symbol rfl (by simp), .inl ⟨rfl, rfl⟩⟩

/-- **The scanner finds the longest token** that the text opens with. -/
theorem scan?_eq_some_iff {c : Char} {rest tail : List Char} {t : Token} :
    scan? c rest = some (t, tail) ↔ Longest t (c :: tail) (c :: rest) := by
  constructor
  · intro h
    obtain ⟨hspells, hfront⟩ := spells_of_scan? h
    refine ⟨hspells, List.cons_prefix_cons.2 ⟨rfl, hfront⟩, fun {t' w'} hs hw => ?_⟩
    obtain ⟨c', tail', rfl⟩ := List.exists_cons_of_ne_nil hs.ne_nil
    obtain ⟨rfl, more, rfl⟩ := List.cons_prefix_cons.1 hw
    obtain ⟨t'', tail'', hscan, hlonger⟩ := scan?_append hs more
    obtain ⟨rfl, rfl⟩ := Prod.mk.inj (Option.some.inj (h.symm.trans hscan))
    rcases hlonger with ⟨-, rfl⟩ | hlt
    · exact le_rfl
    · exact Nat.succ_le_succ hlt.le
  · intro h
    obtain ⟨-, more, rfl⟩ := List.cons_prefix_cons.1 h.isPrefix
    obtain ⟨t', tail', hscan, hlonger⟩ := scan?_append h.spells more
    obtain ⟨hspells, hfront⟩ := spells_of_scan? hscan
    have hle := h.length_le hspells (List.cons_prefix_cons.2 ⟨rfl, hfront⟩)
    rcases hlonger with ⟨rfl, rfl⟩ | hlt
    · exact hscan
    · simp only [List.length_cons] at hle
      omega

/-- **The scanner finds no token** if and only if the text opens with none. -/
theorem scan?_eq_none_iff {c : Char} {rest : List Char} :
    scan? c rest = none ↔ ∀ t w, Spells t w → ¬ w <+: c :: rest := by
  constructor
  · intro h t w hs hw
    obtain ⟨c', tail, rfl⟩ := List.exists_cons_of_ne_nil hs.ne_nil
    obtain ⟨rfl, more, rfl⟩ := List.cons_prefix_cons.1 hw
    obtain ⟨t', tail', hscan, -⟩ := scan?_append hs more
    rw [h] at hscan
    cases hscan
  · intro h
    cases hscan : scan? c rest with
    | none => rfl
    | some p =>
      obtain ⟨hspells, hfront⟩ := spells_of_scan? hscan
      exact absurd (List.cons_prefix_cons.2 ⟨rfl, hfront⟩) (h _ _ hspells)

end Token

end Reckoner
