import Mathlib
import Reckoner.Proofs.Binding
import Reckoner.Proofs.Parsing.Correspondence
import Reckoner.Proofs.Stages

/-!
# Argument Values Do Not Show

Up to evaluation the arguments of a formula count only by their number. A bound placeholder is
parsed as a number, and the parser asks no number for its value; where it quotes a token it quotes
the formula. So formulas are refused for their text alone, before evaluation, and no value of an
argument is in the error. Arguments beyond the distinct placeholders are never looked at.

Main results:

* `Expr.parse_eq_error_of_sameButNumbers`: the parser refuses tokens whatever the numbers among
  them;
* `evaluate_eq_error_of_length_eq`: an error from before evaluation does not depend on the
  arguments;
* `evaluate_append`, `evaluate_take`: arguments that no placeholder asks for are of no consequence.
-/

namespace Reckoner

/-! ### The parser asks no number for its value -/

/-- Two tokens are the **same but for numbers**, in the same spelling. -/
structure Spelled.SameButNumbers (t t' : Spelled) : Prop where
  spelling_eq : t.spelling = t'.spelling
  token : t.token = t'.token ∨ ∃ x y, t.token = .number x ∧ t'.token = .number y

/-- Two readings of tokens that are the **same but for numbers**: whatever they build, their errors
are the same. -/
def Correspondence.sameButNumbers : Correspondence where
  token := Spelled.SameButNumbers
  expr _ _ := True
  error := Eq
  stop _ := False
  alike := by
    rintro ⟨token, spelling⟩ ⟨token', spelling'⟩ ⟨-, rfl | ⟨x, y, rfl, rfl⟩⟩
    · have hconstant : ∀ s, Agree (fun _ => False) Eq (fun _ _ => True) (Reader.namedConstant s)
          (Reader.namedConstant s) :=
        fun _ => (Agree.refl fun _ _ => rfl).imp fun _ _ _ => trivial
      exact .self (fun _ => trivial) (fun _ => .refl fun _ _ => rfl) hconstant fun _ _ => rfl
    · exact .number trivial
  congruence := ⟨fun _ => trivial, fun _ _ => trivial, fun _ => trivial⟩
  fault _ := rfl
  operandExpected h := by rw [h.spelling_eq]
  closeExpected h := by rw [h.spelling_eq]
  trailing h := by rw [h.spelling_eq]

/-- **The parser refuses tokens whatever the numbers among them**, for the same reason. -/
theorem Expr.parse_eq_error_of_sameButNumbers {maxDepth : Nat} {ts ts' : List Spelled}
    (hts : List.Forall₂ Spelled.SameButNumbers ts ts') {err : FormulaError}
    (h : Expr.parse maxDepth ts = .error err) : Expr.parse maxDepth ts' = .error err := by
  have hagree := Correspondence.sameButNumbers.parse_agree_self (d := maxDepth) rfl hts
    fun _ => rfl
  rw [h] at hagree
  generalize Expr.parse maxDepth ts' = y at *
  cases hagree with
  | error herr => rw [herr]
  | stopped hstop => exact hstop.elim

/-! ### Binding asks for the number of arguments -/

section

variable {names : List String} {args args' : List Binary64} {ts tokens tokens' : List Token}

/-- A token bound to either of two lists of arguments becomes the same but for its number. -/
theorem Token.BoundTo.sameButNumbers {t u u' : Token} (h : t.BoundTo names args u)
    (h' : t.BoundTo names args' u') (spelling : String) :
    Spelled.SameButNumbers ⟨u, spelling⟩ ⟨u', spelling⟩ := by
  refine ⟨rfl, ?_⟩
  cases h with
  | placeholder hx =>
    cases h' with
    | placeholder hy => exact .inr ⟨_, _, rfl, rfl⟩
    | other hne => exact absurd rfl (hne _)
  | other hne =>
    cases h' with
    | placeholder hy => exact absurd rfl (hne _)
    | other _ => exact .inl rfl

/-- The same tokens, bound to other arguments, are the same but for numbers. -/
theorem sameButNumbers_spell (h : List.Forall₂ (Token.BoundTo names args) ts tokens)
    (h' : List.Forall₂ (Token.BoundTo names args') ts tokens') (lexemes : List Lexeme) :
    List.Forall₂ Spelled.SameButNumbers (spell tokens lexemes) (spell tokens' lexemes) := by
  induction h generalizing tokens' lexemes with
  | nil =>
    cases h'
    exact .nil
  | cons htu _ ih =>
    obtain ⟨u', us', htu', hus', rfl⟩ := List.forall₂_cons_left_iff.1 h'
    cases lexemes with
    | nil => exact .nil
    | cons l lexemes => exact .cons (htu.sameButNumbers htu' _) (ih hus' lexemes)

/-- As many arguments bind as many placeholders: binding fails with the same error, or yields tokens
that are the same but for numbers. -/
theorem bindPlaceholders_of_length_eq (hlength : args.length = args'.length) (ts : List Token) :
    (∃ err, bindPlaceholders ts args = .error err ∧ bindPlaceholders ts args' = .error err) ∨
      ∃ tokens tokens', bindPlaceholders ts args = .ok tokens ∧
        bindPlaceholders ts args' = .ok tokens' ∧ ∀ lexemes,
          List.Forall₂ Spelled.SameButNumbers (spell tokens lexemes) (spell tokens' lexemes) := by
  rcases Nat.lt_or_ge args.length (placeholderNames ts).length with hlt | hle
  · left
    have hlt' := hlength ▸ hlt
    refine ⟨_, bindPlaceholders_eq_error hlt, ?_⟩
    simp only [bindPlaceholders_eq_error hlt', hlength]
  · right
    obtain ⟨tokens, hok, hall⟩ := exists_bindPlaceholders_eq_ok hle
    obtain ⟨tokens', hok', hall'⟩ := exists_bindPlaceholders_eq_ok (hlength ▸ hle)
    exact ⟨tokens, tokens', hok, hok', sameButNumbers_spell hall hall'⟩

/-- Arguments that no placeholder asks for are not bound. -/
theorem bindPlaceholders_append (h : bindPlaceholders ts args = .ok tokens)
    (more : List Binary64) : bindPlaceholders ts (args ++ more) = .ok tokens := by
  rw [bindPlaceholders_eq_ok_iff] at h ⊢
  refine ⟨by rw [List.length_append]; omega, h.2.imp fun t u htu => ?_⟩
  cases htu with
  | placeholder hx =>
    have hlt := (List.getElem?_eq_some_iff.1 hx).1
    exact .placeholder ((List.getElem?_append_left hlt).trans hx)
  | other hne => exact .other hne

/-- Binding looks at no more arguments than there are distinct names. -/
theorem bindPlaceholders_take (ts : List Token) (args : List Binary64) :
    bindPlaceholders ts (args.take (placeholderNames ts).length) = bindPlaceholders ts args := by
  rcases Nat.lt_or_ge args.length (placeholderNames ts).length with hlt | hle
  · rw [List.take_of_length_le hlt.le]
  · have hlength : (placeholderNames ts).length ≤
        (args.take (placeholderNames ts).length).length := by simp [hle]
    obtain ⟨tokens, hok, -⟩ := exists_bindPlaceholders_eq_ok hlength
    have happend := bindPlaceholders_append hok (args.drop (placeholderNames ts).length)
    rw [List.take_append_drop] at happend
    rw [hok, happend]

end

/-! ### Formulas -/

section

variable {limits : Limits} {formula : String} {args args' : List Binary64} {err : FormulaError}

/-- What makes a parsed expression fail is found in evaluation. -/
theorem Expr.Cause.ne_unknownFunction {e : Expr} {fault : DomainFault} (h : Expr.Cause e fault)
    (name : String) : fault ≠ .unknownFunction name := by
  cases h with
  | refused _ hrefuses => cases hrefuses <;> simp
  | _ => simp

/-- An error is **found before evaluation** if it is not about numbers, but for a call of a function
that does not exist. -/
def FormulaError.BeforeEvaluation (err : FormulaError) : Prop :=
  err.kind ≠ .domain ∨ ∃ name, err = .domain (.unknownFunction name)

/-- What is parsed and fails has not failed before evaluation. -/
theorem not_beforeEvaluation_of_eval {maxDepth : Nat} {ts : List Spelled} {e : Expr}
    (hparse : Expr.parse maxDepth ts = .ok e) (h : e.eval = .error err) :
    ¬ err.BeforeEvaluation := by
  obtain ⟨_, _, _, fault, -, -, hcause, rfl⟩ :=
    (Expr.callsAccepted_of_parse hparse).eval_eq_error_iff.1 h
  rintro (hkind | ⟨name, hname⟩)
  · exact hkind rfl
  · exact hcause.ne_unknownFunction name (FormulaError.domain.inj hname)

/-- **An error from before evaluation does not depend on the arguments**, but for their number. -/
theorem evaluate_eq_error_of_length_eq (hlength : args.length = args'.length)
    (h : evaluate limits formula args = .error err) (herr : err.BeforeEvaluation) :
    evaluate limits formula args' = .error err := by
  cases hblank : isBlankText formula with
  | true => rwa [evaluate_of_isBlankText hblank] at h ⊢
  | false =>
    rcases Nat.lt_or_ge limits.maxLength formula.length with hlong | hlong
    · rwa [evaluate_of_lt_length hblank hlong] at h ⊢
    rw [evaluate_of_length_le hblank hlong] at h ⊢
    rcases bind_eq_error_iff.1 h with hscan | ⟨lexemes, hscan, h⟩
    · rw [hscan, error_bind]
    rw [hscan, ok_bind]
    rcases bindPlaceholders_of_length_eq hlength (lexemes.map Lexeme.token) with
      ⟨err', hbind, hbind'⟩ | ⟨tokens, tokens', hbind, hbind', hsame⟩
    · rw [hbind, error_bind] at h
      rw [hbind', error_bind, h]
    rw [hbind, ok_bind] at h
    rw [hbind', ok_bind]
    rcases bind_eq_error_iff.1 h with hparse | ⟨e, hparse, heval⟩
    · rw [Expr.parse_eq_error_of_sameButNumbers (hsame lexemes) hparse, error_bind]
    · exact absurd herr (not_beforeEvaluation_of_eval hparse heval)

/-- **More arguments change nothing** where there are enough of them. -/
theorem evaluate_append
    (h : ∀ err, evaluate limits formula args = .error err → err.kind ≠ .argument)
    (more : List Binary64) :
    evaluate limits formula (args ++ more) = evaluate limits formula args := by
  cases hblank : isBlankText formula with
  | true => rw [evaluate_of_isBlankText hblank, evaluate_of_isBlankText hblank]
  | false =>
    rcases Nat.lt_or_ge limits.maxLength formula.length with hlong | hlong
    · rw [evaluate_of_lt_length hblank hlong, evaluate_of_lt_length hblank hlong]
    rw [evaluate_of_length_le hblank hlong] at h ⊢
    rw [evaluate_of_length_le hblank hlong]
    cases hscan : scan formula with
    | error err => rw [error_bind, error_bind]
    | ok lexemes =>
      rw [hscan, ok_bind] at h
      rw [ok_bind, ok_bind]
      cases hbind : bindPlaceholders (lexemes.map Lexeme.token) args with
      | error err =>
        rw [hbind, error_bind] at h
        exact absurd (kind_of_bindPlaceholders_eq_error hbind) (h err rfl)
      | ok tokens => rw [bindPlaceholders_append hbind]

/-- **Arguments beyond the distinct placeholders are never looked at.** -/
theorem evaluate_take {lexemes : List Lexeme} (hscan : scan formula = .ok lexemes) :
    evaluate limits formula (args.take (placeholderNames (lexemes.map Lexeme.token)).length) =
      evaluate limits formula args := by
  simp only [evaluate, hscan, ok_bind, bindPlaceholders_take]

end

/-- **Argument values do not show before evaluation.** Where a formula is refused with an error that
is not about numbers, or for a function that does not exist, it is refused with the same error
whatever the values of the arguments. More arguments change nothing unless the error is that there
are too few, and those beyond the number of distinct placeholders are never looked at. -/
theorem argument_values_do_not_show (limits : Limits) (formula : String) :
    (∀ (args args' : List Binary64) (err : FormulaError), args.length = args'.length →
      evaluate limits formula args = .error err →
      (err.kind ≠ .domain ∨ ∃ name, err = .domain (.unknownFunction name)) →
      evaluate limits formula args' = .error err) ∧
    (∀ args more : List Binary64,
      (∀ err, evaluate limits formula args = .error err → err.kind ≠ .argument) →
      evaluate limits formula (args ++ more) = evaluate limits formula args) ∧
    ∀ lexemes, scan formula = .ok lexemes → ∀ args : List Binary64,
      evaluate limits formula (args.take (placeholderNames (lexemes.map Lexeme.token)).length) =
        evaluate limits formula args :=
  ⟨fun _ _ _ hlength h herr => evaluate_eq_error_of_length_eq hlength h herr,
    fun _ more h => evaluate_append h more, fun _ hscan _ => evaluate_take hscan⟩

/-- Two placeholders side by side: the second one is quoted by its name, whatever is bound to it. -/
theorem argument_values_do_not_show_trailing :
    evaluate {} "$a$b" [.nan, .inf true] = .error (.grammar (.trailing "$b")) ∧
    evaluate {} "$a$b" [.zero true, .nan] = .error (.grammar (.trailing "$b")) ∧
    evaluate {} "$a$b" ([.nan, .inf true] ++ [.nan]) = .error (.grammar (.trailing "$b")) ∧
    scan "$a$b" = .ok [⟨.placeholder "a", "$a", 0⟩, ⟨.placeholder "b", "$b", 2⟩, ⟨.eof, "", 4⟩] ∧
    evaluate {} "$a$b" ([.nan, .inf true, .nan].take 2) =
      evaluate {} "$a$b" [.nan, .inf true, .nan] := by
  have hfails : evaluate {} "$a$b" [.nan, .inf true] = .error (.grammar (.trailing "$b")) := by
    decide +kernel
  have hscan : scan "$a$b" =
      .ok [⟨.placeholder "a", "$a", 0⟩, ⟨.placeholder "b", "$b", 2⟩, ⟨.eof, "", 4⟩] := by
    decide +kernel
  obtain ⟨hvalues, hmore, htake⟩ := argument_values_do_not_show {} "$a$b"
  refine ⟨hfails, hvalues [.nan, .inf true] _ _ rfl hfails (.inl (by decide)), ?_, hscan,
    htake _ hscan [.nan, .inf true, .nan]⟩
  rw [hmore _ _ fun err herr => ?_, hfails]
  rw [hfails] at herr
  rw [← Except.error.inj herr]
  decide

end Reckoner
