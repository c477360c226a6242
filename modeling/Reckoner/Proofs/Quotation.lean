import Mathlib
import Reckoner.Proofs.Parsing.Correspondence
import Reckoner.Proofs.Scanning.Spans
import Reckoner.Proofs.Stages

/-!
# Quotation

Parsed by itself, a list of tokens has no text but the canonical spelling of each token. A formula
quotes the tokens in its errors as it spells them. The two parsers keep step: they accept the same
tokens, build the same expression and refuse the rest at the same token for the same reason, and
only the text they quote it by is not the same.

Main definitions:

* `GrammarFault.quoted?`, `GrammarFault.requote`: the text that a fault quotes, and the fault with
  another text in its place;
* `evaluateByStages`: the stages one after the other, without the text of the formula.

Main results:

* `parse_spell_agree`: the two parsers keep step;
* `evaluate_agrees_with_stages`: a formula has the value that the stages have, or fails like the
  first one of them that does, but for the text that is quoted.
-/

namespace Reckoner

/-! ### Quoted text -/

/-- The text of a token that a fault quotes. -/
def GrammarFault.quoted? : GrammarFault → Option String
  | trailing s => some s
  | operandExpected s => some s
  | closeExpected _ s => some s
  | _ => none

/-- The fault that quotes another text. -/
def GrammarFault.requote (s : String) : GrammarFault → GrammarFault
  | trailing _ => trailing s
  | operandExpected _ => operandExpected s
  | closeExpected construct _ => closeExpected construct s
  | fault => fault

/-- The text of a token that an error quotes. -/
def FormulaError.quoted? : FormulaError → Option String
  | grammar fault => fault.quoted?
  | _ => none

/-- The error that quotes another text. -/
def FormulaError.requote (s : String) : FormulaError → FormulaError
  | grammar fault => grammar (fault.requote s)
  | err => err

/-- Another quotation does not change the kind of an error. -/
theorem FormulaError.kind_requote (s : String) (err : FormulaError) :
    (err.requote s).kind = err.kind := by
  cases err <;> rfl

/-- A bare fault quotes nothing. -/
theorem GrammarFault.IsBare.quoted?_eq_none {fault : GrammarFault} (h : fault.IsBare) :
    fault.quoted? = none := by
  cases fault with
  | trailing | operandExpected | closeExpected => exact h.elim
  | _ => rfl

/-- **What stands around a quoted text** does not depend on it. -/
theorem GrammarFault.text_of_quoted? {fault : GrammarFault} {shown : String}
    (h : fault.quoted? = some shown) : ∃ before after : String,
      ((before = "Unexpected '" ∧ after = "', expected an operand") ∨
        (before = "Unexpected '" ∧ after = "' after complete expression") ∨
        ∃ construct : Construct, before = s!"Expected ')' {construct.text}, got '" ∧ after = "'") ∧
      fault.text = before ++ shown ++ after ∧
      ∀ s, (fault.requote s).text = before ++ s ++ after := by
  cases fault with
  | operandExpected =>
    obtain rfl := Option.some.inj h
    exact ⟨_, _, .inl ⟨rfl, rfl⟩, rfl, fun _ => rfl⟩
  | trailing =>
    obtain rfl := Option.some.inj h
    exact ⟨_, _, .inr (.inl ⟨rfl, rfl⟩), rfl, fun _ => rfl⟩
  | closeExpected construct =>
    obtain rfl := Option.some.inj h
    exact ⟨_, _, .inr (.inr ⟨construct, rfl, rfl⟩), rfl, fun _ => rfl⟩
  | _ => cases h

/-! ### The two parsers keep step -/

section

variable {tokens : List Token} {lexemes : List Lexeme}

/-- The spelling of a lexeme and the canonical spelling of the token it is parsed as, which is not
the end of the formula. -/
inductive Requoted (tokens : List Token) (lexemes : List Lexeme) : String → String → Prop
  | intro {i : Nat} {t : Token} {l : Lexeme} : tokens[i]? = some t → lexemes[i]? = some l →
      t ≠ .eof → Requoted tokens lexemes l.spelling t.text

/-- Errors that are the same and quote nothing, or that quote the two spellings of one token. -/
def SameUpToQuotation (tokens : List Token) (lexemes : List Lexeme) (err err' : FormulaError) :
    Prop :=
  (err = err' ∧ err'.quoted? = none) ∨
    ∃ s s', Requoted tokens lexemes s s' ∧ err'.quoted? = some s' ∧ err = err'.requote s

/-- An error that quotes nothing is the same up to what it quotes. -/
theorem SameUpToQuotation.refl {err : FormulaError} (h : err.quoted? = none) :
    SameUpToQuotation tokens lexemes err err :=
  .inl ⟨rfl, h⟩

/-- Two readings of the **same tokens in two spellings**. -/
def Correspondence.respelled (tokens : List Token) (lexemes : List Lexeme) : Correspondence where
  token t t' := t.token = t'.token ∧ Requoted tokens lexemes t.spelling t'.spelling
  expr := Eq
  error := SameUpToQuotation tokens lexemes
  stop _ := False
  alike := by
    rintro ⟨token, spelling⟩ ⟨_, spelling'⟩ ⟨rfl, -⟩
    refine .self (fun _ => rfl) (fun _ => .refl fun err herr => .refl ?_)
      (fun _ => .refl fun err herr => .refl ?_) (fun _ _ => .refl rfl)
    · rcases Reader.calledFunction_eq_error herr with rfl | rfl <;> rfl
    · rcases Reader.namedConstant_eq_error herr with ⟨f, rfl⟩ | rfl <;> rfl
  congruence := Expr.congruence_eq
  fault h := .refl h.quoted?_eq_none
  operandExpected h := .inr ⟨_, _, h.2, rfl, rfl⟩
  closeExpected h := .inr ⟨_, _, h.2, rfl, rfl⟩
  trailing h := .inr ⟨_, _, h.2, rfl, rfl⟩

/-- Before the end of the formula, tokens in the spelling of their lexemes and in their own. -/
theorem tokens_body_of_forall₂ {ts : List Token} {ls : List Lexeme}
    (h : List.Forall₂ (fun t l => t ≠ .eof → Requoted tokens lexemes l.spelling t.text) ts ls) :
    (Correspondence.respelled tokens lexemes).Tokens (Expr.body (spell ts ls))
      (Expr.body (ts.map Spelled.ofToken)) := by
  induction h with
  | nil => exact .nil
  | @cons t l ts ls htl _ ih =>
    have hspell : spell (t :: ts) (l :: ls) = ⟨t, l.spelling⟩ :: spell ts ls := rfl
    have htoken : (Spelled.ofToken t).token = t := rfl
    rw [hspell, List.map_cons, Expr.body_cons, Expr.body_cons, htoken]
    by_cases heof : t = .eof
    · rw [if_pos heof, if_pos heof]
      exact .nil
    · rw [if_neg heof, if_neg heof]
      exact .cons ⟨rfl, htl heof⟩ ih

/-- Bound tokens in front of the end correspond one to one, with the spellings of the formula and
with their own. -/
theorem tokens_body_spell (hlength : tokens.length = lexemes.length) :
    (Correspondence.respelled tokens lexemes).Tokens (Expr.body (spell tokens lexemes))
      (Expr.body (tokens.map Spelled.ofToken)) := by
  refine tokens_body_of_forall₂ (List.forall₂_iff_get.2 ⟨hlength, fun i hi hi' heof => ?_⟩)
  exact .intro (List.getElem?_eq_getElem hi) (List.getElem?_eq_getElem hi') heof

/-- **The two parsers keep step.** -/
theorem parse_spell_agree (maxDepth : Nat) (hlength : tokens.length = lexemes.length) :
    Agree (fun _ => False) (SameUpToQuotation tokens lexemes) Eq
      (Expr.parse maxDepth (spell tokens lexemes))
      (Expr.parse maxDepth (tokens.map Spelled.ofToken)) := by
  rw [← Expr.parse_body _ (spell _ _), ← Expr.parse_body _ (tokens.map _)]
  exact (Correspondence.respelled tokens lexemes).parse_agree_self (.refl rfl)
    (tokens_body_spell hlength) fun _ => .refl rfl

end

/-! ### Formulas -/

section

variable {limits : Limits} {formula : String} {args : List Binary64} {lexemes : List Lexeme}
  {tokens : List Token} {err : FormulaError}

/-- The stages, one after the other: the parser is given the tokens without the text of the
formula. -/
def evaluateByStages (limits : Limits) (formula : String) (args : List Binary64) :
    Except FormulaError Binary64 := do
  let lexemes ← scan formula
  let tokens ← bindPlaceholders (lexemes.map Lexeme.token) args
  let e ← Expr.parse limits.maxDepth (tokens.map Spelled.ofToken)
  e.eval

/-- Only the shape of a formula is refused with a quotation. -/
theorem quoted?_eq_none_of_kind (h : err.kind ≠ .grammar) : err.quoted? = none := by
  cases err with
  | grammar fault => exact absurd rfl h
  | _ => rfl

/-- The lexeme of a bound token that is not the end of the formula is a span of the formula. -/
theorem spanOf_of_bindPlaceholders (hscan : scan formula = .ok lexemes)
    (hbind : bindPlaceholders (lexemes.map Lexeme.token) args = .ok tokens) {i : Nat} {t : Token}
    {l : Lexeme} (ht : tokens[i]? = some t) (hl : lexemes[i]? = some l) (heof : t ≠ .eof) :
    l.SpanOf formula := by
  obtain ⟨spans, hreached, rfl⟩ := scan_eq_ok_iff.1 hscan
  have hmem := List.mem_of_getElem? hl
  rcases List.mem_append.1 hmem with hmem | hmem
  · exact hreached.spanOf_of_mem hmem
  · -- The end of the formula is bound to itself.
    rw [List.mem_singleton] at hmem
    have hall := (bindPlaceholders_eq_ok_iff.1 hbind).2
    have hlast : ((spans ++ [(⟨.eof, "", formula.utf8ByteSize⟩ : Lexeme)]).map Lexeme.token)[i]? =
        some .eof := by
      rw [List.getElem?_map, hl, hmem]
      rfl
    obtain ⟨u, hu, hbound⟩ := exists_getElem?_of_forall₂ hall hlast
    rw [ht] at hu
    cases hbound with
    | other _ => exact absurd (Option.some.inj hu) heof

/-- Errors of a formula and of its stages: the same one, which quotes nothing, or one of the parser,
which quotes a token, and the formula the lexeme at the same place. -/
inductive FormulaError.Requoting (limits : Limits) (formula : String) (args : List Binary64) :
    FormulaError → FormulaError → Prop
  | same {err : FormulaError} : err.quoted? = none → Requoting limits formula args err err
  | token {lexemes : List Lexeme} {tokens : List Token} {err : FormulaError} {i : Nat} {t : Token}
      {l : Lexeme} : scan formula = .ok lexemes →
      bindPlaceholders (lexemes.map Lexeme.token) args = .ok tokens →
      Expr.parse limits.maxDepth (tokens.map Spelled.ofToken) = .error err →
      tokens[i]? = some t → lexemes[i]? = some l → t ≠ .eof → err.quoted? = some t.text →
      Requoting limits formula args (err.requote l.spelling) err

/-- **A formula and its stages keep step.** -/
theorem evaluate_agree (args : List Binary64) (hblank : isBlankText formula = false)
    (hlength : formula.length ≤ limits.maxLength) :
    Agree (fun _ => False) (FormulaError.Requoting limits formula args) Eq
      (evaluate limits formula args) (evaluateByStages limits formula args) := by
  -- The stages are the same but for the spellings that the parser is given.
  rw [evaluate_of_length_le hblank hlength, evaluateByStages]
  cases hscan : scan formula with
  | error err =>
    refine .error (.same (quoted?_eq_none_of_kind ?_))
    simp [kind_of_scan_eq_error hscan]
  | ok lexemes =>
    rw [ok_bind, ok_bind]
    cases hbind : bindPlaceholders (lexemes.map Lexeme.token) args with
    | error err =>
      refine .error (.same (quoted?_eq_none_of_kind ?_))
      simp [kind_of_bindPlaceholders_eq_error hbind]
    | ok tokens =>
      rw [ok_bind, ok_bind]
      have hparse := parse_spell_agree limits.maxDepth (length_of_bindPlaceholders hbind)
      cases hstage : Expr.parse limits.maxDepth (tokens.map Spelled.ofToken) with
      | ok e =>
        rw [hstage] at hparse
        generalize Expr.parse limits.maxDepth (spell tokens lexemes) = x at hparse ⊢
        cases hparse with
        | ok he =>
          rw [he]
          refine .refl fun err herr => .same ?_
          obtain ⟨_, _, _, _, -, -, -, rfl⟩ :=
            (Expr.callsAccepted_of_parse hstage).eval_eq_error_iff.1 herr
          rfl
        | stopped hstop => exact hstop.elim
      | error err =>
        rw [hstage] at hparse
        generalize Expr.parse limits.maxDepth (spell tokens lexemes) = x at hparse ⊢
        cases hparse with
        | error herr =>
          rcases herr with ⟨rfl, hnone⟩ | ⟨s, s', hplace, hquoted, rfl⟩
          · exact .error (.same hnone)
          · obtain ⟨ht, hl, heof⟩ := hplace
            exact .error (.token hscan hbind hstage ht hl heof hquoted)
        | stopped hstop => exact hstop.elim

end

/-- **A formula agrees with its stages.** A formula that is not blank and not too long has the value
that scanning, binding, parsing and evaluation have, run one after the other without its text. Where
one of these fails, it fails with an error of the same kind: with the same error unless this is one
of the parser that quotes a token, and then with the one that has the span of this token in the
formula in place of its canonical spelling. What stands around the quoted text is one of three
texts, and is not affected. -/
theorem evaluate_agrees_with_stages (limits : Limits) (formula : String) (args : List Binary64)
    (hblank : isBlankText formula = false) (hlength : formula.length ≤ limits.maxLength) :
    (∀ x, evaluate limits formula args = .ok x ↔ evaluateByStages limits formula args = .ok x) ∧
    (∀ err, evaluateByStages limits formula args = .error err →
      ∃ err', evaluate limits formula args = .error err' ∧ err'.kind = err.kind ∧
        (err.quoted? = none → err' = err) ∧
        ∀ shown, err.quoted? = some shown →
          ∃ (lexemes : List Lexeme) (tokens : List Token) (i : Nat) (t : Token) (l : Lexeme),
            scan formula = .ok lexemes ∧
            bindPlaceholders (lexemes.map Lexeme.token) args = .ok tokens ∧
            Expr.parse limits.maxDepth (tokens.map Spelled.ofToken) = .error err ∧
            tokens[i]? = some t ∧ lexemes[i]? = some l ∧ t ≠ .eof ∧ shown = t.text ∧
            err' = err.requote (String.Pos.Raw.extract formula ⟨l.start⟩ ⟨l.stop⟩)) ∧
    ∀ (fault : GrammarFault) (shown : String), fault.quoted? = some shown →
      ∃ before after : String,
        ((before = "Unexpected '" ∧ after = "', expected an operand") ∨
          (before = "Unexpected '" ∧ after = "' after complete expression") ∨
          ∃ construct : Construct, before = s!"Expected ')' {construct.text}, got '" ∧
            after = "'") ∧
        fault.text = before ++ shown ++ after ∧
        ∀ s, (fault.requote s).text = before ++ s ++ after := by
  have hagree := evaluate_agree args hblank hlength
  refine ⟨fun x => ?_, fun err herr => ?_, fun _ _ => GrammarFault.text_of_quoted?⟩
  · generalize evaluate limits formula args = y at *
    generalize evaluateByStages limits formula args = z at *
    cases hagree with
    | ok hxy => rw [hxy]
    | error herr => simp
    | stopped hstop => exact hstop.elim
  · rw [herr] at hagree
    generalize evaluate limits formula args = y at *
    -- An error by stages is met by itself or by one that quotes the formula in its place.
    cases hagree with
    | error hrequoting =>
      cases hrequoting with
      | same hnone => exact ⟨_, rfl, rfl, fun _ => rfl, by simp [hnone]⟩
      | @token lexemes tokens _ i t l hscan hbind hparse ht hl heof hquoted =>
        refine ⟨_, rfl, FormulaError.kind_requote _ _, by simp [hquoted], fun shown hshown => ?_⟩
        refine ⟨lexemes, tokens, i, t, l, hscan, hbind, hparse, ht, hl, heof, ?_, ?_⟩
        · exact Option.some.inj (hshown.symm.trans hquoted)
        · rw [(spanOf_of_bindPlaceholders hscan hbind ht hl heof).extract_eq]
    | stopped hstop => exact hstop.elim

/-- Two arguments without a comma between them: the stages quote the value of the second one, and
the formula its name. -/
theorem evaluate_agrees_with_stages_sqrt :
    isBlankText "sqrt($x $y)" = false ∧ "sqrt($x $y)".length ≤ 4096 ∧
    evaluateByStages {} "sqrt($x $y)" [.zero false, .inf true] =
      .error (.grammar (.closeExpected (.call .sqrt) "-inf")) ∧
    (∃ start stop, evaluate {} "sqrt($x $y)" [.zero false, .inf true] =
      .error (.grammar (.closeExpected (.call .sqrt)
        (String.Pos.Raw.extract "sqrt($x $y)" ⟨start⟩ ⟨stop⟩)))) ∧
    evaluate {} "sqrt($x $y)" [.zero false, .inf true] =
      .error (.grammar (.closeExpected (.call .sqrt) "$y")) := by
  have hblank : isBlankText "sqrt($x $y)" = false := by decide +kernel
  have hstages : evaluateByStages {} "sqrt($x $y)" [.zero false, .inf true] =
      .error (.grammar (.closeExpected (.call .sqrt) "-inf")) := by
    decide +kernel
  obtain ⟨-, herrors, -⟩ := evaluate_agrees_with_stages {} "sqrt($x $y)" [.zero false, .inf true]
    hblank (by decide)
  obtain ⟨_, herr, -, -, hquotes⟩ := herrors _ hstages
  obtain ⟨_, _, _, _, l, -, -, -, -, -, -, -, rfl⟩ := hquotes _ rfl
  exact ⟨hblank, by decide, hstages, ⟨l.start, l.stop, herr⟩, by decide +kernel⟩

end Reckoner
