import Mathlib
import Reckoner.Proofs.Parsing.Completeness
import Reckoner.Proofs.Parsing.Soundness

/-!
# The Parser Accepts the Grammar

Soundness and completeness of the readers, put together: a list of tokens is parsed exactly if its
tokens before the end of the formula are an expression that nests no deeper than the limit, and then
to the expression that they build. The limit decides whether a formula is accepted and never what it
means.

Main results:

* `Expr.parse_eq_ok_iff`: what is parsed is in the grammar, and conversely;
* `Grammar.Expression.unique`: the grammar is unambiguous;
* `Expr.parse_exact`: both, for the parser.
-/

namespace Reckoner

open Grammar

/-- **What is parsed is in the grammar, and conversely**: an expression that nests at most
`maxDepth` levels. -/
theorem Expr.parse_eq_ok_iff {maxDepth : Nat} {ts : List Spelled} {e : Expr} :
    Expr.parse maxDepth ts = .ok e ↔
      ∃ n ≤ maxDepth, Expression ((Expr.body ts).map Spelled.token) e n := by
  rw [Expr.parse_eq_ok_iff_plain]
  constructor
  · intro h
    obtain ⟨us, n, hus, he, hn⟩ := Reader.expression_sound (Reader.unary_sound _ _) h
    rw [List.append_nil] at hus
    exact ⟨n, by omega, hus ▸ he⟩
  · rintro ⟨n, hn, he⟩
    have h := Reader.expression_takes maxDepth he rfl (Nat.lt_succ_of_le hn) [] trivial
    rwa [List.append_nil] at h

/-- Tokens in their canonical spelling. -/
theorem Spelled.map_token_map_ofToken (w : List Token) :
    (w.map Spelled.ofToken).map Spelled.token = w := by
  simp [Spelled.ofToken, Function.comp_def]

/-- **The grammar is unambiguous**: what tokens build does not depend on how they are derived. -/
theorem Grammar.Expression.unique {w : List Token} {e e' : Expr} {n n' : Nat}
    (h : Expression w e n) (h' : Expression w e' n') : e = e' := by
  have hw := Spelled.map_token_map_ofToken w
  have hn : n < max n n' + 1 := by omega
  have hn' : n' < max n n' + 1 := by omega
  have he := Reader.expression_takes 0 h hw hn [] trivial
  have he' := Reader.expression_takes 0 h' hw hn' [] trivial
  exact (Prod.mk.inj (Except.ok.inj (he.symm.trans he'))).1

/-- Cutting off the end of the formula takes no notice of spellings. -/
theorem Expr.map_token_body (ts : List Spelled) :
    (Expr.body ts).map Spelled.token = (ts.map Spelled.token).takeWhile (· ≠ .eof) := by
  rw [List.takeWhile_map]
  rfl

/-- **The parser accepts the grammar.** Tokens are parsed to an expression exactly if those before
the end of the formula, if it is among them, are derived as this expression by a derivation that
nests at most as many levels as the limit. There is at most one such expression, whatever the
limit. -/
theorem Expr.parse_exact (ts : List Spelled) :
    (∀ (maxDepth : Nat) (e : Expr), Expr.parse maxDepth ts = .ok e ↔
      ∃ n ≤ maxDepth, Expression ((ts.map Spelled.token).takeWhile (· ≠ .eof)) e n) ∧
    {e | ∃ maxDepth, Expr.parse maxDepth ts = .ok e}.Subsingleton := by
  constructor
  · intro maxDepth e
    rw [← Expr.map_token_body]
    exact Expr.parse_eq_ok_iff
  · rintro e ⟨d, h⟩ e' ⟨d', h'⟩
    obtain ⟨n, -, he⟩ := Expr.parse_eq_ok_iff.1 h
    obtain ⟨n', -, he'⟩ := Expr.parse_eq_ok_iff.1 h'
    exact he.unique he'

end Reckoner
