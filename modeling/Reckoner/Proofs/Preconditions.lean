import Mathlib
import Reckoner.Proofs.Composition
import Reckoner.Proofs.Parsing.Correspondence
import Reckoner.Proofs.Spacing

/-!
# What the Parser Is Given

The parser has an error for no tokens at all, and one for a placeholder that no argument was bound
to. No formula has them. A formula without tokens is blank, as what the scanner skips is what a
blank formula consists of, and blank formulas are refused before anything else is looked at.
Placeholders are all replaced before parsing, or one of them has no argument, which is found first
as well.

Main definition: `Expr.Refusal`, the errors of the parser about some tokens.

Main results:

* `isBlankText_iff_scan`: the blank formulas are those that are scanned to nothing but their end;
* `Expr.refusal_of_parse`: the errors of the parser are about the tokens that it is given;
* `evaluate_eq_missingArgument_iff`: where a formula fails for want of an argument;
* `parser_is_given_bound_tokens`: all of it, for every formula.
-/

namespace Reckoner

/-! ### Blank formulas -/

/-- **The blank formulas are those that are scanned to nothing but their end.** -/
theorem isBlankText_iff_scan {formula : String} : isBlankText formula = true ↔
    scan formula = .ok [⟨.eof, "", formula.utf8ByteSize⟩] := by
  constructor
  · intro hblank
    have hscanned := scanned_of_isBlank (List.all_eq_true.1 hblank) 0
    rw [Nat.zero_add, byteSize_toList] at hscanned
    exact hscanned.scanFrom_eq
  · intro hscan
    exact (isBlankText_eq_true_iff hscan).2 rfl

/-- Text without tokens is blank. -/
theorem Lexed.isBlank_of_nil {text : List Char} {tokens : List Token} (h : Lexed text tokens)
    (hnil : tokens = []) : ∀ c ∈ text, isBlank c := by
  induction h with
  | nil => simp
  | blank hc _ ih => exact List.forall_mem_cons.2 ⟨hc, ih hnil⟩
  | token _ _ _ => cases hnil

/-! ### Bound tokens -/

section

variable {formula : String} {args : List Binary64} {lexemes : List Lexeme} {tokens : List Token}

/-- **A formula that is not blank has tokens before its end**, bound ones as well. -/
theorem takeWhile_bindPlaceholders_ne_nil (hblank : isBlankText formula = false)
    (hscan : scan formula = .ok lexemes)
    (hbind : bindPlaceholders (lexemes.map Lexeme.token) args = .ok tokens) :
    tokens.takeWhile (· ≠ .eof) ≠ [] := by
  obtain ⟨ts, hlexed, hts⟩ := (scanFrom_eq_ok_iff.1 hscan).exists_lexed
  rw [hts] at hbind
  obtain ⟨bound, hbound, rfl⟩ := exists_bindPlaceholders_around (v := []) (by simp) (by simp) hbind
  have heof : .eof ∉ bound := fun hmem =>
    hlexed.eof_notMem (mem_of_mem_bindPlaceholders hbound hmem (by simp))
  rw [List.nil_append, takeWhile_append_eof heof]
  rintro rfl
  -- As many tokens are bound as there are.
  have hnil : ts = [] := List.forall₂_nil_right_iff.1 (bindPlaceholders_eq_ok_iff.1 hbound).2
  have htext : isBlankText formula = true := List.all_eq_true.2 (hlexed.isBlank_of_nil hnil)
  rw [hblank] at htext
  cases htext

/-- The tokens that the parser is given are the bound ones. -/
theorem map_token_body_spell
    (hbind : bindPlaceholders (lexemes.map Lexeme.token) args = .ok tokens) :
    (Expr.body (spell tokens lexemes)).map Spelled.token = tokens.takeWhile (· ≠ .eof) := by
  rw [Expr.map_token_body, map_token_spell (length_of_bindPlaceholders hbind)]

end

/-! ### Errors of the parser -/

/-- The parser **refuses** the tokens listed: for their shape, where an error about a placeholder is
about one of them, or for a function that does not exist. -/
inductive Expr.Refusal (listed : List Token) : FormulaError → Prop
  | shape {fault : GrammarFault} : fault ≠ .noExpression →
      (∀ name, fault = .unboundPlaceholder name → .placeholder name ∈ listed) →
      Expr.Refusal listed (.grammar fault)
  | unknownFunction (name : String) : Expr.Refusal listed (.domain (.unknownFunction name))

/-- A reading of **tokens among those listed** with itself. -/
def Correspondence.among (listed : List Token) : Correspondence where
  token t t' := t = t' ∧ t.token ∈ listed
  expr := Eq
  error err err' := err = err' ∧ Expr.Refusal listed err
  stop _ := False
  alike := by
    rintro ⟨token, spelling⟩ _ ⟨rfl, hlisted⟩
    refine .self (fun _ => rfl) (fun _ => .refl fun err herr => ⟨rfl, ?_⟩)
      (fun _ => .refl fun err herr => ⟨rfl, ?_⟩) fun name hname => ⟨rfl, .shape (by simp) ?_⟩
    · rcases Reader.calledFunction_eq_error herr with rfl | rfl
      · exact .shape (by simp) (by simp)
      · exact .unknownFunction _
    · rcases Reader.namedConstant_eq_error herr with ⟨f, rfl⟩ | rfl <;>
        exact .shape (by simp) (by simp)
    · rintro _ ⟨⟩
      exact hname ▸ hlisted
  congruence := Expr.congruence_eq
  fault {fault} h := by
    refine ⟨rfl, .shape ?_ ?_⟩
    · rintro rfl
      exact h
    · rintro _ rfl
      exact h.elim
  operandExpected h := ⟨h.1 ▸ rfl, .shape (by simp) (by simp)⟩
  closeExpected h := ⟨h.1 ▸ rfl, .shape (by simp) (by simp)⟩
  trailing h := ⟨h.1 ▸ rfl, .shape (by simp) (by simp)⟩

namespace Expr

variable {maxDepth : Nat} {ts : List Spelled} {err : FormulaError}

/-- **The parser refuses the tokens that it is given**, if it is given any. -/
theorem refusal_of_parse (hbody : body ts ≠ []) (h : parse maxDepth ts = .error err) :
    Refusal ((body ts).map Spelled.token) err := by
  have htokens : (Correspondence.among ((body ts).map Spelled.token)).Tokens (body ts) (body ts) :=
    List.forall₂_same.2 fun t ht => ⟨rfl, List.mem_map_of_mem ht⟩
  have hagree := (Correspondence.among _).parse_agree_self (d := maxDepth)
    ⟨rfl, .shape (by simp) (by simp)⟩ htokens fun hnil => absurd (body_body ts ▸ hnil) hbody
  rw [parse_body, h] at hagree
  cases hagree with
  | error herr => exact herr.2
  | stopped hstop => exact hstop.elim

/-- Parsing fails for the shape, or for a function that does not exist. -/
theorem kind_of_parse_eq_error (h : parse maxDepth ts = .error err) :
    err.kind = .grammar ∨ err.kind = .domain := by
  by_cases hbody : body ts = []
  · rw [parse_eq_plain, if_pos hbody] at h
    rw [← Except.error.inj h]
    exact .inl rfl
  · cases refusal_of_parse hbody h with
    | shape _ _ => exact .inl rfl
    | unknownFunction _ => exact .inr rfl

end Expr

/-! ### Formulas -/

section

variable {limits : Limits} {formula : String} {args : List Binary64}

/-- **The parser is given tokens, and no placeholder among them**, so that two of its errors are
never those of a formula. -/
theorem fault_of_evaluate_eq_error {fault : GrammarFault}
    (h : evaluate limits formula args = .error (.grammar fault)) :
    fault ≠ .noExpression ∧ ∀ name, fault ≠ .unboundPlaceholder name := by
  obtain ⟨hblank, ⟨-, rfl⟩ | ⟨-, lexemes, tokens, hscan, hbind, hparse⟩⟩ :=
    evaluate_eq_grammar_error_iff.1 h
  · simp
  have htokens := map_token_body_spell hbind
  have hbody : Expr.body (spell tokens lexemes) ≠ [] := by
    intro hnil
    rw [hnil, List.map_nil] at htokens
    exact takeWhile_bindPlaceholders_ne_nil hblank hscan hbind htokens.symm
  cases Expr.refusal_of_parse hbody hparse with
  | shape hnone hunbound =>
    refine ⟨hnone, fun name hname => ?_⟩
    have hmem := hunbound name hname
    rw [htokens] at hmem
    exact placeholder_notMem_of_bindPlaceholders hbind name ((List.takeWhile_sublist _).subset hmem)

/-- An error that is neither about the shape nor about numbers is found before parsing. -/
theorem beforeParsing_of_kind {err : FormulaError} (h : evaluate limits formula args = .error err)
    (hshape : err.kind ≠ .grammar) (hnumbers : err.kind ≠ .domain) :
    isBlankText formula = true ∧ err = .empty ∨
      isBlankText formula = false ∧ formula.length ≤ limits.maxLength ∧
        (scan formula = .error err ∨ ∃ lexemes, scan formula = .ok lexemes ∧
          bindPlaceholders (lexemes.map Lexeme.token) args = .error err) := by
  cases hblank : isBlankText formula with
  | true =>
    rw [evaluate_of_isBlankText hblank] at h
    exact .inl ⟨rfl, (Except.error.inj h).symm⟩
  | false =>
    rcases Nat.lt_or_ge limits.maxLength formula.length with hlength | hlength
    · rw [evaluate_of_lt_length hblank hlength] at h
      rw [← Except.error.inj h] at hshape
      exact absurd rfl hshape
    rw [evaluate_of_length_le hblank hlength] at h
    refine .inr ⟨rfl, hlength, ?_⟩
    rcases bind_eq_error_iff.1 h with hscan | ⟨lexemes, hscan, h⟩
    · exact .inl hscan
    rcases bind_eq_error_iff.1 h with hbind | ⟨tokens, -, h⟩
    · exact .inr ⟨lexemes, hscan, hbind⟩
    -- Parsing and evaluation fail with errors of the two kinds that are excluded.
    rcases bind_eq_error_iff.1 h with hparse | ⟨e, hparse, heval⟩
    · exact ((Expr.kind_of_parse_eq_error hparse).elim hshape hnumbers).elim
    · obtain ⟨_, _, _, _, -, -, -, rfl⟩ :=
        (Expr.callsAccepted_of_parse hparse).eval_eq_error_iff.1 heval
      exact absurd rfl hnumbers

/-- **A formula is empty exactly if it is blank**, whatever its length. -/
theorem evaluate_eq_empty_iff : evaluate limits formula args = .error .empty ↔
    ∀ c ∈ formula.toList, isBlank c = true := by
  rw [← List.all_eq_true, ← isBlankText]
  refine ⟨fun h => ?_, evaluate_of_isBlankText⟩
  rcases beforeParsing_of_kind h (by simp [FormulaError.kind]) (by simp [FormulaError.kind]) with
    ⟨hblank, -⟩ | ⟨-, -, hscan | ⟨lexemes, -, hbind⟩⟩
  · exact hblank
  · exact absurd (kind_of_scan_eq_error hscan) (by simp [FormulaError.kind])
  · exact absurd (kind_of_bindPlaceholders_eq_error hbind) (by simp [FormulaError.kind])

/-- **An argument is missing exactly if there are fewer than distinct placeholders**, in a formula
that is not blank, not too long and scanned, whatever its shape. -/
theorem evaluate_eq_missingArgument_iff :
    (∃ err, evaluate limits formula args = .error err ∧ err.kind = .argument) ↔
      isBlankText formula = false ∧ formula.length ≤ limits.maxLength ∧
        ∃ lexemes, scan formula = .ok lexemes ∧
          args.length < (placeholderNames (lexemes.map Lexeme.token)).length := by
  constructor
  · rintro ⟨err, h, hkind⟩
    rcases beforeParsing_of_kind h (by simp [hkind]) (by simp [hkind]) with
      ⟨-, rfl⟩ | ⟨hblank, hlength, hscan | ⟨lexemes, hscan, hbind⟩⟩
    · cases hkind
    · rw [kind_of_scan_eq_error hscan] at hkind
      cases hkind
    · refine ⟨hblank, hlength, lexemes, hscan, Nat.lt_of_not_le fun hle => ?_⟩
      obtain ⟨bound, hbound, -⟩ := exists_bindPlaceholders_eq_ok hle
      rw [hbind] at hbound
      cases hbound
  · rintro ⟨hblank, hlength, lexemes, hscan, hlt⟩
    refine ⟨_, ?_, kind_of_bindPlaceholders_eq_error (bindPlaceholders_eq_error hlt)⟩
    rw [evaluate_of_length_le hblank hlength, hscan, ok_bind, bindPlaceholders_eq_error hlt,
      error_bind]

end

/-! ### Messages -/

/-- That there is no token is the only fault with this wording. -/
theorem GrammarFault.eq_noExpression_of_text {fault : GrammarFault}
    (h : fault.text = "Empty expression") : fault = .noExpression := by
  have hchars := congrArg String.toList h
  cases fault with
  | noExpression => rfl
  | _ =>
    dsimp only [GrammarFault.text, toString] at hchars
    simp at hchars

/-- That a placeholder is not bound is the only fault with this wording. -/
theorem GrammarFault.exists_eq_unboundPlaceholder_of_text {fault : GrammarFault} {name : String}
    (h : fault.text = "Unresolved placeholder '$" ++ name ++ "'") :
    ∃ name, fault = .unboundPlaceholder name := by
  have hchars := congrArg String.toList h
  cases fault with
  | unboundPlaceholder name => exact ⟨name, rfl⟩
  | _ =>
    dsimp only [GrammarFault.text, toString] at hchars
    simp at hchars

/-- Faults in the shape are the only errors that are introduced as such. -/
theorem FormulaError.exists_eq_grammar_of_message {err : FormulaError} {text : String}
    (h : err.message = "Syntax error: " ++ text) :
    ∃ fault, err = .grammar fault ∧ fault.text = text := by
  have hchars := congrArg String.toList h
  cases err with
  | grammar fault =>
    refine ⟨fault, rfl, String.toList_inj.1 ?_⟩
    dsimp only [FormulaError.message, toString] at hchars
    simpa using hchars
  | _ =>
    dsimp only [FormulaError.message, toString] at hchars
    simp at hchars

/-- **The parser is given bound tokens.** A formula is blank exactly if it is scanned to nothing but
its end; of any other formula, the bound tokens have one before the end, and no placeholder among
them. So no formula, whatever the arguments and the limits are, fails with the message that there is
no expression or that a placeholder is not bound. It fails as empty exactly if all its characters
are blank, whatever its length; and for want of an argument exactly if it is not blank, not too
long, scanned, and has more distinct placeholders than there are arguments, whatever its shape. -/
theorem parser_is_given_bound_tokens (limits : Limits) (formula : String) (args : List Binary64) :
    (isBlankText formula = true ↔ scan formula = .ok [⟨.eof, "", formula.utf8ByteSize⟩]) ∧
    (isBlankText formula = false → ∀ lexemes tokens, scan formula = .ok lexemes →
      bindPlaceholders (lexemes.map Lexeme.token) args = .ok tokens →
      tokens.takeWhile (· ≠ .eof) ≠ [] ∧ ∀ name, .placeholder name ∉ tokens) ∧
    (∀ err, evaluate limits formula args = .error err →
      err.message ≠ "Syntax error: Empty expression" ∧
        ∀ name, err.message ≠ "Syntax error: Unresolved placeholder '$" ++ name ++ "'") ∧
    (evaluate limits formula args = .error .empty ↔ ∀ c ∈ formula.toList, isBlank c = true) ∧
    ((∃ err, evaluate limits formula args = .error err ∧ err.kind = .argument) ↔
      isBlankText formula = false ∧ formula.length ≤ limits.maxLength ∧
        ∃ lexemes, scan formula = .ok lexemes ∧
          args.length < (placeholderNames (lexemes.map Lexeme.token)).length) := by
  refine ⟨isBlankText_iff_scan, fun hblank lexemes tokens hscan hbind => ?_, fun err herr => ?_,
    evaluate_eq_empty_iff, evaluate_eq_missingArgument_iff⟩
  · exact ⟨takeWhile_bindPlaceholders_ne_nil hblank hscan hbind,
      placeholder_notMem_of_bindPlaceholders hbind⟩
  -- Each wording belongs to one fault, and bound tokens of a formula never lead to it.
  · refine ⟨fun hmessage => ?_, fun name hmessage => ?_⟩
    · have hsplit : err.message = "Syntax error: " ++ "Empty expression" := hmessage
      obtain ⟨fault, rfl, htext⟩ := FormulaError.exists_eq_grammar_of_message hsplit
      exact (fault_of_evaluate_eq_error herr).1 (GrammarFault.eq_noExpression_of_text htext)
    · have hsplit : err.message =
          "Syntax error: " ++ ("Unresolved placeholder '$" ++ name ++ "'") := by
        rw [hmessage, ← String.append_assoc, ← String.append_assoc]
        congr 2
      obtain ⟨fault, rfl, htext⟩ := FormulaError.exists_eq_grammar_of_message hsplit
      obtain ⟨name, hfault⟩ := GrammarFault.exists_eq_unboundPlaceholder_of_text htext
      exact (fault_of_evaluate_eq_error herr).2 name hfault

/-- A placeholder with an operator that lacks its operand, with an argument and without one, and a
formula of one blank that is too long. -/
theorem parser_is_given_bound_tokens_unfinished :
    isBlankText "$a+" = false ∧
    scan "$a+" = .ok [⟨.placeholder "a", "$a", 0⟩, ⟨.operator .add, "+", 2⟩, ⟨.eof, "", 3⟩] ∧
    bindPlaceholders [.placeholder "a", .operator .add, .eof] [.nan] =
      .ok [.number .nan, .operator .add, .eof] ∧
    ([.number .nan, .operator .add, .eof] : List Token).takeWhile (· ≠ .eof) ≠ [] ∧
    evaluate {} "$a+" [.nan] = .error (.grammar .operandMissing) ∧
    (FormulaError.grammar .operandMissing).message ≠ "Syntax error: Empty expression" ∧
    (∃ err, evaluate {} "$a+" [] = .error err ∧ err.kind = .argument) ∧
    evaluate ⟨0, 0⟩ "\u3000" [] = .error .empty := by
  have hblank : isBlankText "$a+" = false := by decide +kernel
  have hscan : scan "$a+" =
      .ok [⟨.placeholder "a", "$a", 0⟩, ⟨.operator .add, "+", 2⟩, ⟨.eof, "", 3⟩] := by
    decide +kernel
  have hbind : bindPlaceholders [.placeholder "a", .operator .add, .eof] [.nan] =
      .ok [.number .nan, .operator .add, .eof] := by
    decide
  have hfails : evaluate {} "$a+" [.nan] = .error (.grammar .operandMissing) := by decide +kernel
  obtain ⟨-, htokens, herrors, -, -⟩ := parser_is_given_bound_tokens {} "$a+" [.nan]
  obtain ⟨-, -, -, -, hmissing⟩ := parser_is_given_bound_tokens {} "$a+" []
  obtain ⟨-, -, -, hempty, -⟩ := parser_is_given_bound_tokens ⟨0, 0⟩ "\u3000" []
  exact ⟨hblank, hscan, hbind, (htokens hblank _ _ hscan hbind).1, hfails, (herrors _ hfails).1,
    hmissing.2 ⟨hblank, by decide, _, hscan, by decide⟩, hempty.2 (List.all_eq_true.1 (by decide))⟩

end Reckoner
