import Mathlib
import Reckoner.Formula
import Reckoner.Proofs.Parsing.Correspondence

/-!
# Limits Only Reject

A higher limit on nesting changes nothing but whether the limit is exceeded: the two readings of the
same tokens, within the lower and within the higher limit, keep step until the first one stops. It
stops at most once for each token, as each level of nesting takes one.

Main results:

* `Expr.parse_of_le`: the lower limit is exceeded, or both limits yield the same, which is not that
  a limit is exceeded;
* `limits_only_reject`: the depth of a list of tokens, from which on the limit on
  nesting is of no consequence, and what follows for whole formulas and both limits.
-/

namespace Reckoner

/-- An error is **not about depth** if it is not that a limit on nesting is exceeded. -/
def FormulaError.IsNotDepth (err : FormulaError) : Prop :=
  ∀ limit, err ≠ .grammar (.tooDeep limit)

/-- A name that is called is never refused for the depth. -/
theorem Reader.isNotDepth_of_calledFunction {s : String} {err : FormulaError}
    (h : calledFunction s = .error err) : err.IsNotDepth := by
  rintro limit rfl
  rcases calledFunction_eq_error h with h | h <;> simp at h

/-- A name that is not called is never refused for the depth. -/
theorem Reader.isNotDepth_of_namedConstant {s : String} {err : FormulaError}
    (h : namedConstant s = .error err) : err.IsNotDepth := by
  rintro limit rfl
  rcases namedConstant_eq_error h with ⟨f, h⟩ | h <;> simp at h

namespace Correspondence

/-- Two readings of the **same tokens**, of which the first one stops where it exceeds its limit on
nesting. No other error is about such a limit. -/
def sameTokens (limit : Nat) : Correspondence where
  token := Eq
  expr := Eq
  error err err' := err = err' ∧ err.IsNotDepth
  stop err := err = .grammar (.tooDeep limit)
  alike h := h ▸ .self (fun _ => rfl)
    (fun _ => .refl fun _ herr => ⟨rfl, Reader.isNotDepth_of_calledFunction herr⟩)
    (fun _ => .refl fun _ herr => ⟨rfl, Reader.isNotDepth_of_namedConstant herr⟩)
    (fun _ _ => ⟨rfl, by simp [FormulaError.IsNotDepth]⟩)
  congruence := Expr.congruence_eq
  fault h := ⟨rfl, fun limit heq => by
    rw [FormulaError.grammar.inj heq] at h
    exact h⟩
  operandExpected h := ⟨h ▸ rfl, by simp [FormulaError.IsNotDepth]⟩
  closeExpected h := ⟨h ▸ rfl, by simp [FormulaError.IsNotDepth]⟩
  trailing h := ⟨h ▸ rfl, by simp [FormulaError.IsNotDepth]⟩

end Correspondence

open Correspondence

/-- With no level left the limit is exceeded, whatever the higher limit makes of the tokens. -/
theorem sameTokens_simulates {d d' : Nat} (hd : d ≤ d') :
    (sameTokens d).Simulates (d + 1) (Reader.unary d (d + 1)) (Reader.unary d' (d' + 1)) := by
  have hbase : (sameTokens d).Simulates 0 (Reader.unary d 0) (Reader.unary d' (d' - d)) := by
    intro ts ts' count _ _
    exact .stopped ⟨rfl, Nat.zero_le _⟩
  have h := unary_simulates hbase (d + 1)
  rwa [Nat.zero_add, ← Nat.add_assoc, Nat.sub_add_cancel hd] at h

/-- **A higher limit accepts more and changes nothing else**: the lower limit is exceeded, by no
more levels than there are tokens, or both limits yield the same. -/
theorem Expr.parse_of_le {d d' : Nat} (hd : d ≤ d') (ts : List Spelled) :
    (Expr.parse d ts = .error (.grammar (.tooDeep d)) ∧ d < (Expr.body ts).length) ∨
      (Expr.parse d ts = Expr.parse d' ts ∧
        ∀ limit, Expr.parse d ts ≠ .error (.grammar (.tooDeep limit))) := by
  have hsame : (sameTokens d).Tokens ts ts := List.forall₂_same.2 fun _ _ => rfl
  have h := parse_agree (sameTokens_simulates hd) hsame
    fun _ => ⟨rfl, by simp [FormulaError.IsNotDepth]⟩
  generalize Expr.parse d ts = x at *
  generalize Expr.parse d' ts = y at *
  cases h with
  | ok he => exact .inr ⟨congrArg _ he, by simp⟩
  | error he => exact .inr ⟨congrArg _ he.1, fun limit heq => he.2 limit (Except.error.inj heq)⟩
  | stopped hs => exact .inl ⟨congrArg _ hs.1, hs.2⟩

/-- **The depth of a list of tokens**: limits below it are exceeded, and all others yield the same,
which is not that a limit is exceeded. It is at most the number of tokens. -/
theorem Expr.exists_depth (ts : List Spelled) : ∃ depth ≤ (Expr.body ts).length,
    (∀ d < depth, Expr.parse d ts = .error (.grammar (.tooDeep d))) ∧
      ∀ d ≥ depth, Expr.parse d ts = Expr.parse depth ts ∧
        ∀ limit, Expr.parse d ts ≠ .error (.grammar (.tooDeep limit)) := by
  classical
  have hlast : ∀ limit,
      Expr.parse (Expr.body ts).length ts ≠ .error (.grammar (.tooDeep limit)) := by
    rcases Expr.parse_of_le le_rfl ts with ⟨-, hlt⟩ | ⟨-, hne⟩
    · exact absurd hlt (lt_irrefl _)
    · exact hne
  have hex : ∃ d, ∀ limit, Expr.parse d ts ≠ .error (.grammar (.tooDeep limit)) := ⟨_, hlast⟩
  refine ⟨Nat.find hex, Nat.find_min' hex hlast, ?_, ?_⟩
  · intro d hd
    rcases Expr.parse_of_le (le_refl d) ts with ⟨herr, -⟩ | ⟨-, hne⟩
    · exact herr
    · exact absurd hne (Nat.find_min hex hd)
  · intro d hd
    rcases Expr.parse_of_le hd ts with ⟨herr, -⟩ | ⟨heq, hne⟩
    · exact absurd herr (Nat.find_spec hex _)
    · exact ⟨heq.symm, heq ▸ hne⟩

/-- Within higher limits a formula has the same value or error, unless it exceeds the lower ones. -/
theorem evaluate_of_le {limits limits' : Limits} (hlength : limits.maxLength ≤ limits'.maxLength)
    (hdepth : limits.maxDepth ≤ limits'.maxDepth) (formula : String) (args : List Binary64) :
    evaluate limits formula args = .error (.grammar (.tooLong formula.length limits.maxLength)) ∨
      evaluate limits formula args = .error (.grammar (.tooDeep limits.maxDepth)) ∨
        evaluate limits' formula args = evaluate limits formula args := by
  cases hblank : isBlankText formula with
  | true =>
    exact .inr (.inr (by rw [evaluate_of_isBlankText hblank, evaluate_of_isBlankText hblank]))
  | false =>
    rcases Nat.lt_or_ge limits.maxLength formula.length with hlong | hlong
    · exact .inl (evaluate_of_lt_length hblank hlong)
    rw [evaluate_of_length_le hblank hlong, evaluate_of_length_le hblank (hlong.trans hlength)]
    cases scan formula with
    | error err => exact .inr (.inr (by rw [error_bind, error_bind]))
    | ok lexemes =>
      cases hbind : bindPlaceholders (lexemes.map Lexeme.token) args with
      | error err => exact .inr (.inr (by simp [hbind]))
      | ok tokens =>
        simp only [ok_bind, hbind]
        rcases Expr.parse_of_le hdepth (spell tokens lexemes) with ⟨herr, -⟩ | ⟨heq, -⟩
        · exact .inr (.inl (by rw [herr, error_bind]))
        · exact .inr (.inr (by rw [heq]))

/-- **Limits only reject.** Each list of tokens has a depth, at most the number of tokens before the
end of the formula: below it the error is that the limit on nesting is exceeded, and from it on
all limits yield the same, which is never this error. So a formula that exceeds neither limit has
the same value, or fails in the same way, within all higher limits. -/
theorem limits_only_reject :
    (∀ ts : List Spelled, ∃ depth ≤ (ts.takeWhile (·.token ≠ .eof)).length,
      (∀ d < depth, Expr.parse d ts = .error (.grammar (.tooDeep d))) ∧
        ∀ d ≥ depth, Expr.parse d ts = Expr.parse depth ts ∧
          ∀ limit, Expr.parse d ts ≠ .error (.grammar (.tooDeep limit))) ∧
    (∀ (limits limits' : Limits) (formula : String) (args : List Binary64),
      limits.maxLength ≤ limits'.maxLength → limits.maxDepth ≤ limits'.maxDepth →
        evaluate limits formula args =
            .error (.grammar (.tooLong formula.length limits.maxLength)) ∨
          evaluate limits formula args = .error (.grammar (.tooDeep limits.maxDepth)) ∨
            evaluate limits' formula args = evaluate limits formula args) ∧
    ∀ d, (FormulaError.grammar (.tooDeep d)).message =
      s!"Syntax error: Formula nests deeper than {d} levels" :=
  ⟨Expr.exists_depth, fun _ _ formula args hlength hdepth =>
    evaluate_of_le hlength hdepth formula args, fun _ => rfl⟩

/-- Two groups, one within the other, with one level and with the usual limits. -/
theorem limits_only_reject_groups :
    (10 ≤ 4096 ∧ 1 ≤ 256) ∧
      (evaluate ⟨10, 1⟩ "((1))" [] = .error (.grammar (.tooLong "((1))".length 10)) ∨
        evaluate ⟨10, 1⟩ "((1))" [] = .error (.grammar (.tooDeep 1)) ∨
          evaluate {} "((1))" [] = evaluate ⟨10, 1⟩ "((1))" []) :=
  ⟨by decide, limits_only_reject.2.1 ⟨10, 1⟩ {} "((1))" [] (by decide) (by decide)⟩

end Reckoner
