import Mathlib
import Reckoner.Formula
import Reckoner.Proofs.Evaluation.Order

/-!
# Values Are Finite

The value of an expression is a finite number, and so is the value of each of its parts: nothing
that is infinite or NaN is ever absorbed by a later operation, and no failure is either.

Main results:

* `Expr.isFinite_of_eval`: the value of an expression is finite;
* `isFinite_of_evaluate`: the value of a formula is finite;
* `eval_absorbs_nothing`: both, with all parts of an expression.
-/

namespace Reckoner

/-- A checked result is finite. -/
theorem isFinite_of_requireFinite {operation : Operation} {x y : Binary64}
    (h : requireFinite operation x = .ok y) : y.isFinite := by
  rw [requireFinite] at h
  by_cases hx : x.isFinite
  · rw [if_pos hx] at h
    exact Except.ok.inj h ▸ hx
  · rw [if_neg hx] at h
    cases h

/-- A change of sign keeps a number finite. -/
theorem Binary64.isFinite_neg (x : Binary64) : x.neg.isFinite = x.isFinite := by
  cases x <;> rfl

/-- Constants pass no check, and need none. -/
theorem Constant.isFinite_value (c : Constant) : c.value.isFinite := by
  cases c <;> decide +kernel

/-- **The value of an expression is finite.** -/
theorem Expr.isFinite_of_eval {e : Expr} {x : Binary64} (h : e.eval = .ok x) : x.isFinite := by
  -- Only a sign has a value that is not checked, so the induction goes down operands of signs.
  match e with
  | literal y =>
    rw [eval_literal] at h
    exact isFinite_of_requireFinite h
  | constant c =>
    rw [eval_constant] at h
    exact Except.ok.inj h ▸ c.isFinite_value
  | negate e =>
    rw [eval_negate] at h
    obtain ⟨y, hy, hx⟩ := bind_eq_ok_iff.1 h
    rw [← Except.ok.inj hx, Binary64.isFinite_neg]
    exact isFinite_of_eval hy
  | binary op l r =>
    rw [eval_binary] at h
    obtain ⟨y, -, h⟩ := bind_eq_ok_iff.1 h
    obtain ⟨z, -, h⟩ := bind_eq_ok_iff.1 h
    exact isFinite_of_requireFinite h
  | call f args =>
    rw [eval_call] at h
    obtain ⟨xs, -, h⟩ := bind_eq_ok_iff.1 h
    obtain ⟨y, -, h⟩ := bind_eq_ok_iff.1 h
    exact isFinite_of_requireFinite h

/-- **Where a formula has a value**: it is not blank and not too long, and scanned, bound and parsed
to an expression with this value. -/
theorem evaluate_eq_ok_iff {limits : Limits} {formula : String} {args : List Binary64}
    {x : Binary64} : evaluate limits formula args = .ok x ↔
      isBlankText formula = false ∧ formula.length ≤ limits.maxLength ∧
        ∃ lexemes tokens e, scan formula = .ok lexemes ∧
          bindPlaceholders (lexemes.map Lexeme.token) args = .ok tokens ∧
          Expr.parse limits.maxDepth (spell tokens lexemes) = .ok e ∧ e.eval = .ok x := by
  constructor
  · intro h
    cases hblank : isBlankText formula with
    | true =>
      rw [evaluate_of_isBlankText hblank] at h
      cases h
    | false =>
      rcases Nat.lt_or_ge limits.maxLength formula.length with hlength | hlength
      · rw [evaluate_of_lt_length hblank hlength] at h
        cases h
      rw [evaluate_of_length_le hblank hlength] at h
      obtain ⟨lexemes, hscan, h⟩ := bind_eq_ok_iff.1 h
      obtain ⟨tokens, hbind, h⟩ := bind_eq_ok_iff.1 h
      obtain ⟨e, hparse, heval⟩ := bind_eq_ok_iff.1 h
      exact ⟨rfl, hlength, lexemes, tokens, e, hscan, hbind, hparse, heval⟩
  · rintro ⟨hblank, hlength, lexemes, tokens, e, hscan, hbind, hparse, heval⟩
    rw [evaluate_of_length_le hblank hlength, hscan, ok_bind, hbind, ok_bind, hparse, ok_bind,
      heval]

/-- **The value of a formula is finite.** -/
theorem isFinite_of_evaluate {limits : Limits} {formula : String} {args : List Binary64}
    {x : Binary64} (h : evaluate limits formula args = .ok x) : x.isFinite := by
  obtain ⟨-, -, _, _, e, -, -, -, he⟩ := evaluate_eq_ok_iff.1 h
  exact Expr.isFinite_of_eval he

/-- **Nothing is absorbed.** Where an expression has a value, it is finite, and all its parts, at
any depth, have values that are finite; where a part has none, the expression has none. So the value
of a formula is never infinite or NaN. -/
theorem eval_absorbs_nothing :
    (∀ (e : Expr) (x : Binary64), e.eval = .ok x →
      x.isFinite ∧ ∀ s : Expr, s.Within e → ∃ y, s.eval = .ok y ∧ y.isFinite) ∧
    (∀ (e s : Expr) (err : FormulaError), s.Within e → s.eval = .error err →
      ∃ err', e.eval = .error err') ∧
    ∀ (limits : Limits) (formula : String) (args : List Binary64) (x : Binary64),
      evaluate limits formula args = .ok x → x.isFinite := by
  refine ⟨?_, ?_, ?_⟩
  · intro e x h
    refine ⟨Expr.isFinite_of_eval h, fun s hs => ?_⟩
    obtain ⟨y, hy⟩ := Expr.exists_eval_eq_ok_iff.1 ⟨x, h⟩ s hs
    exact ⟨y, hy, Expr.isFinite_of_eval hy⟩
  · intro e s err hs herr
    cases h : e.eval with
    | error err' => exact ⟨err', rfl⟩
    | ok x =>
      obtain ⟨y, hy⟩ := Expr.exists_eval_eq_ok_iff.1 ⟨x, h⟩ s hs
      rw [herr] at hy
      cases hy
  · intro limits formula args x h
    exact isFinite_of_evaluate h

/-- The larger one of zero and a negative number, and of zero and a quotient that is infinite: the
function would ignore either argument. -/
theorem eval_absorbs_nothing_max :
    ((Expr.call .max [.literal (.zero false), .negate (.constant .e)]).eval = .ok (.zero false) ∧
      ∃ y, (Expr.negate (.constant .e)).eval = .ok y ∧ y.isFinite) ∧
    ((Expr.binary .div (.constant .e) (.literal (.zero true))).eval =
        .error (.domain (.notFinite (.binary .div (Constant.value .e) (.zero true)) (.inf true))) ∧
      ∃ err, (Expr.call .max [.literal (.zero false),
        .binary .div (.constant .e) (.literal (.zero true))]).eval = .error err) ∧
    evaluate {} "max(0, -e)" [] = .ok (.zero false) ∧ (Binary64.zero false).isFinite := by
  have hnegate : (Expr.negate (.constant .e)).Within
      (.call .max [.literal (.zero false), .negate (.constant .e)]) :=
    Expr.within_of_mem_operands (by simp [Expr.operands])
  have hdiv : (Expr.binary .div (.constant .e) (.literal (.zero true))).Within
      (.call .max [.literal (.zero false), .binary .div (.constant .e) (.literal (.zero true))]) :=
    Expr.within_of_mem_operands (by simp [Expr.operands])
  have hmax : (Expr.call .max [.literal (.zero false), .negate (.constant .e)]).eval =
      .ok (.zero false) := by decide +kernel
  have hfails : (Expr.binary .div (.constant .e) (.literal (.zero true))).eval =
      .error
        (.domain (.notFinite (.binary .div (Constant.value .e) (.zero true)) (.inf true))) := by
    decide +kernel
  have hformula : evaluate {} "max(0, -e)" [] = .ok (.zero false) := by decide +kernel
  refine ⟨⟨hmax, ?_⟩, ⟨hfails, ?_⟩, hformula, ?_⟩
  · exact (eval_absorbs_nothing.1 _ _ hmax).2 _ hnegate
  · exact eval_absorbs_nothing.2.1 _ _ _ hdiv hfails
  · exact eval_absorbs_nothing.2.2 _ _ _ _ hformula

end Reckoner
