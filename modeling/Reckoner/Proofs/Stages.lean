import Mathlib
import Reckoner.Formula
import Reckoner.Proofs.Binding
import Reckoner.Proofs.Evaluation.Causes
import Reckoner.Proofs.Parsing.Exact
import Reckoner.Proofs.Scanning.Delimiters

/-!
# Stages

A formula is checked, scanned, bound, parsed and evaluated, and each of these stages has errors of
its own. What is wrong with the shape of a formula is settled before it is evaluated: the length is
checked first, and all else is found by the parser.

Main results:

* `kind_of_scan_eq_error`, `kind_of_bindPlaceholders_eq_error`: the kinds of errors of the stages
  before parsing;
* `Expr.callsAccepted_of_parse`: parsing counts the arguments of calls;
* `parse_settles_shape`: an expression that was parsed can only fail for numbers, so that a formula
  with a fault in its shape is never evaluated.
-/

namespace Reckoner

/-! ### The errors of each stage -/

/-- Scanning fails at characters. -/
theorem kind_of_scan_eq_error {formula : String} {err : FormulaError}
    (h : scan formula = .error err) : err.kind = .lexical := by
  obtain ⟨before, lexemes, c, after, -, -, rfl⟩ := scan_eq_error_iff.1 h
  rfl

/-- Binding fails for want of an argument. -/
theorem kind_of_bindPlaceholders_eq_error {tokens : List Token} {args : List Binary64}
    {err : FormulaError} (h : bindPlaceholders tokens args = .error err) :
    err.kind = .argument := by
  rcases Nat.lt_or_ge args.length (placeholderNames tokens).length with hlt | hle
  · rw [bindPlaceholders_eq_error hlt] at h
    rw [← Except.error.inj h]
    rfl
  · obtain ⟨bound, hok, -⟩ := exists_bindPlaceholders_eq_ok hle
    rw [hok] at h
    cases h

/-- Bound tokens line up with the lexemes. -/
theorem length_of_bindPlaceholders {lexemes : List Lexeme} {args : List Binary64}
    {tokens : List Token} (h : bindPlaceholders (lexemes.map Lexeme.token) args = .ok tokens) :
    tokens.length = lexemes.length := by
  rw [← (bindPlaceholders_eq_ok_iff.1 h).2.length_eq, List.length_map]

/-- Tokens are not affected by how they are spelled. -/
theorem map_token_spell {tokens : List Token} {lexemes : List Lexeme}
    (h : tokens.length = lexemes.length) : (spell tokens lexemes).map Spelled.token = tokens := by
  refine List.ext_getElem ?_ fun i _ _ => ?_
  · rw [List.length_map, spell, List.length_zipWith, h, Nat.min_self]
  · simp only [spell, List.getElem_map, List.getElem_zipWith]

/-- A formula that is parsed to an expression is not blank. -/
theorem isBlankText_eq_false_of_parse {formula : String} {args : List Binary64}
    {lexemes : List Lexeme} {tokens : List Token} {maxDepth : Nat} {e : Expr}
    (hscan : scan formula = .ok lexemes)
    (hparse : Expr.parse maxDepth (spell tokens lexemes) = .ok e)
    (hbind : bindPlaceholders (lexemes.map Lexeme.token) args = .ok tokens) :
    isBlankText formula = false := by
  cases hblank : isBlankText formula with
  | false => rfl
  | true =>
    have hscanned := scanned_of_isBlank (List.all_eq_true.1 hblank) 0
    obtain rfl := Except.ok.inj (hscan.symm.trans hscanned.scanFrom_eq)
    obtain rfl := Except.ok.inj (hbind.symm.trans (bindPlaceholders_eq_self (by simp) args))
    cases hparse

/-- **Parsing counts the arguments of calls**, so that evaluation need not. -/
theorem Expr.callsAccepted_of_parse {maxDepth : Nat} {ts : List Spelled} {e : Expr}
    (h : Expr.parse maxDepth ts = .ok e) : e.CallsAccepted := by
  obtain ⟨n, -, he⟩ := Expr.parse_eq_ok_iff.1 h
  exact he.callsAccepted

/-- **A fault in the shape is found before evaluation**: it is the length of the formula, or the
parser finds it. -/
theorem evaluate_eq_grammar_error_iff {limits : Limits} {formula : String} {args : List Binary64}
    {fault : GrammarFault} : evaluate limits formula args = .error (.grammar fault) ↔
      isBlankText formula = false ∧
        (limits.maxLength < formula.length ∧ fault = .tooLong formula.length limits.maxLength ∨
          formula.length ≤ limits.maxLength ∧ ∃ lexemes tokens, scan formula = .ok lexemes ∧
            bindPlaceholders (lexemes.map Lexeme.token) args = .ok tokens ∧
            Expr.parse limits.maxDepth (spell tokens lexemes) = .error (.grammar fault)) := by
  constructor
  · intro h
    cases hblank : isBlankText formula with
    | true =>
      rw [evaluate_of_isBlankText hblank] at h
      cases h
    | false =>
      refine ⟨rfl, ?_⟩
      rcases Nat.lt_or_ge limits.maxLength formula.length with hlength | hlength
      · rw [evaluate_of_lt_length hblank hlength] at h
        exact .inl ⟨hlength, (FormulaError.grammar.inj (Except.error.inj h)).symm⟩
      rw [evaluate_of_length_le hblank hlength] at h
      -- The stages around the parser fail with errors of other kinds.
      rcases bind_eq_error_iff.1 h with hscan | ⟨lexemes, hscan, h⟩
      · exact absurd (kind_of_scan_eq_error hscan) (by simp [FormulaError.kind])
      rcases bind_eq_error_iff.1 h with hbind | ⟨tokens, hbind, h⟩
      · exact absurd (kind_of_bindPlaceholders_eq_error hbind) (by simp [FormulaError.kind])
      rcases bind_eq_error_iff.1 h with hparse | ⟨e, hparse, heval⟩
      · exact .inr ⟨hlength, lexemes, tokens, hscan, hbind, hparse⟩
      · obtain ⟨_, _, _, _, -, -, -, herr⟩ :=
          (Expr.callsAccepted_of_parse hparse).eval_eq_error_iff.1 heval
        cases herr
  · rintro ⟨hblank, ⟨hlength, rfl⟩ | ⟨hlength, lexemes, tokens, hscan, hbind, hparse⟩⟩
    · exact evaluate_of_lt_length hblank hlength
    · rw [evaluate_of_length_le hblank hlength, hscan, ok_bind, hbind, ok_bind, hparse, error_bind]

/-- **Parsing settles the shape.** All functions in an expression that was parsed, at any depth, are
called with numbers of arguments that they accept, and the expression has a value, or fails for the
cause of its first part that fails: a literal or a result that is not finite, or a square root or a
logarithm outside its domain. So where a formula fails for its shape, its length is the fault or the
parser found it. -/
theorem parse_settles_shape :
    (∀ (maxDepth : Nat) (ts : List Spelled) (e : Expr), Expr.parse maxDepth ts = .ok e →
      (∀ f args, (Expr.call f args).Within e → f.checkCount args.length = .ok ()) ∧
      ∀ err, e.eval = .error err ↔ ∃ before s after fault, e.postorder = before ++ s :: after ∧
        (∀ t ∈ before, ∃ x, t.eval = .ok x) ∧ Expr.Cause s fault ∧ err = .domain fault) ∧
    ∀ (limits : Limits) (formula : String) (args : List Binary64) (fault : GrammarFault),
      evaluate limits formula args = .error (.grammar fault) ↔
        isBlankText formula = false ∧
          (limits.maxLength < formula.length ∧
              fault = .tooLong formula.length limits.maxLength ∨
            formula.length ≤ limits.maxLength ∧ ∃ lexemes tokens, scan formula = .ok lexemes ∧
              bindPlaceholders (lexemes.map Lexeme.token) args = .ok tokens ∧
              Expr.parse limits.maxDepth (spell tokens lexemes) = .error (.grammar fault)) := by
  refine ⟨fun maxDepth ts e h => ?_, fun _ _ _ _ => evaluate_eq_grammar_error_iff⟩
  have hcounts := Expr.callsAccepted_of_parse h
  exact ⟨fun f args hcall => Function.checkCount_eq_ok_iff.2 (hcounts f args hcall),
    fun err => hcounts.eval_eq_error_iff⟩

/-- The square root of a negative number, and a power with one argument, whose own value is not
asked for. -/
theorem parse_settles_shape_sqrt :
    (∃ e, Expr.parse 2 ([.name "sqrt", .openParen, .operator .sub, .name "e", .closeParen].map
        Spelled.ofToken) = .ok e ∧
      (∀ f args, (Expr.call f args).Within e → f.checkCount args.length = .ok ()) ∧
      e.eval = .error (.domain (.sqrtOfNegative (Constant.value .e).neg)) ∧
      ∃ s, Expr.Cause s (.sqrtOfNegative (Constant.value .e).neg)) ∧
    evaluate {} "pow(1/0)" [] = .error (.grammar (.argumentCount .pow 1)) ∧
      ∃ tokens, Expr.parse 256 tokens = .error (.grammar (.argumentCount .pow 1)) := by
  have hparse : Expr.parse 2 ([.name "sqrt", .openParen, .operator .sub, .name "e",
      .closeParen].map Spelled.ofToken) = .ok (.call .sqrt [.negate (.constant .e)]) := by
    cbv
  have hsqrt : (Expr.call .sqrt [.negate (.constant .e)]).eval =
      .error (.domain (.sqrtOfNegative (Constant.value .e).neg)) := by
    decide +kernel
  have hpow : evaluate {} "pow(1/0)" [] = .error (.grammar (.argumentCount .pow 1)) := by
    decide +kernel
  obtain ⟨hcounts, herrors⟩ := parse_settles_shape.1 _ _ _ hparse
  obtain ⟨_, s, _, fault, -, -, hcause, hfault⟩ := (herrors _).1 hsqrt
  obtain ⟨-, ⟨hlength, -⟩ | ⟨-, lexemes, tokens, -, -, hfails⟩⟩ :=
    (parse_settles_shape.2 _ _ _ _).1 hpow
  · exact absurd hlength (by decide)
  · rw [FormulaError.domain.injEq] at hfault
    exact ⟨⟨_, hparse, hcounts, hsqrt, s, hfault ▸ hcause⟩, hpow, _, hfails⟩

end Reckoner
