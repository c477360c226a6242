import Mathlib
import Reckoner.Proofs.Evaluation.Activations
import Reckoner.Proofs.Parsing.Exact

/-!
# The Stack of the Evaluator Is Bounded

The operators of a chain are not counted by the limit on nesting, but they do not nest activations
of the evaluator either. So a derivation bounds the activations on the expression that it builds by
the levels it nests, in the worst case by four for each: a level can be a call, in a power, in a
product, in a sum.

Main results:

* `Grammar.Expression.spread_le` and its companions: the bound at each form of the grammar;
* `Grammar.exists_expression_activations_eq`: the bound is attained;
* `Expr.activations_le_of_parse`: the limit on nesting bounds the stack of the evaluator.
-/

namespace Reckoner

namespace Grammar

open Reckoner.Expr

mutual

/-- **A derivation bounds the activations**: four for each level that it nests. A level is a call
below a power below a product below a sum. -/
theorem Expression.spread_le {w : List Token} {e : Expr} {n : Nat} :
    Expression w e n → e.spread ≤ 4 * n + 2
  | .term h => Nat.le_succ_of_le h.spread_le
  | .add hl hr | .sub hl hr => by
    have hleft := hl.spread_le
    have hright := activations_le_of_spread_le hr.spread_le
    rw [spread_binary]
    omega

/-- A product takes one activation less than the sum that it stands in. -/
theorem Term.spread_le {w : List Token} {e : Expr} {n : Nat} :
    Term w e n → e.spread ≤ 4 * n + 1
  | .unary h => (spread_le_activations _).trans h.activations_le
  | .mul hl hr | .div hl hr => by
    have hleft := hl.spread_le
    have hright := hr.activations_le
    rw [spread_binary]
    omega

/-- An operand with its signs takes one activation, and four for each level that it nests. -/
theorem Unary.activations_le {w : List Token} {e : Expr} {n : Nat} :
    Unary w e n → e.activations ≤ 4 * n + 1
  | .negate h => by
    have hoperand := h.activations_le
    rw [activations_negate]
    omega
  | .plus h => by
    have hoperand := h.activations_le
    omega
  | .power h => h.activations_le

/-- A power takes one activation, and four for each level that it nests. -/
theorem Power.activations_le {w : List Token} {e : Expr} {n : Nat} :
    Power w e n → e.activations ≤ 4 * n + 1
  | .primary h => by
    have hbase := h.activations_le
    omega
  | .pow hl hr => by
    have hbase := (spread_le_activations _).trans hl.activations_le
    have hexponent := hr.activations_le
    rw [activations_binary]
    omega

/-- A primary takes four activations for each level, and one if it is a number or a constant. -/
theorem Primary.activations_le {w : List Token} {e : Expr} {n : Nat} :
    Primary w e n → e.activations ≤ max (4 * n) 1
  | .number x => by simp
  | .constant _ => by simp
  | @Primary.call _ _ _ es _ _ hargs _ => by
    have hmax : (es.map Expr.activations).foldr max 0 ≤ 4 * n - 1 := by
      rw [foldr_max_le_iff, List.forall_mem_map]
      exact fun e he => Nat.le_sub_one_of_lt (hargs.activations_lt e he)
    rw [activations_call]
    omega
  | .group h => by
    have hcontent := activations_le_of_spread_le h.spread_le
    omega

/-- The arguments of a call nest one level less than the call, and leave one activation of its four
to it. -/
theorem Arguments.activations_lt {w : List Token} {es : List Expr} {n : Nat} :
    Arguments w es n → ∀ e ∈ es, e.activations < 4 * n
  | .none => by simp
  | .some he hes => by
    have hfirst := activations_le_of_spread_le he.spread_le
    refine List.forall_mem_cons.2 ⟨by omega, fun e hmem => ?_⟩
    have := hes.activations_lt e hmem
    omega

/-- The arguments behind the first one leave one activation to the call, too. -/
theorem Further.activations_lt {w : List Token} {es : List Expr} {n : Nat} :
    Further w es n → ∀ e ∈ es, e.activations < 4 * n
  | .none => by simp
  | .comma he hes => by
    have hfirst := activations_le_of_spread_le he.spread_le
    refine List.forall_mem_cons.2 ⟨by omega, fun e hmem => ?_⟩
    have := hes.activations_lt e hmem
    omega

end

/-- **The bound is attained**: a sum whose last summand is a product whose last factor is a power of
a call takes all four activations of a level. -/
theorem exists_expression_activations_eq (n : Nat) : ∃ (w : List Token) (e : Expr),
    Expression w e n ∧ (∀ t ∈ w, t ≠ .eof) ∧ e.activations = 4 * n + 3 := by
  have hone : Unary [.number (.zero false)] (.literal (.zero false)) 0 :=
    .power (.primary (.number _))
  induction n with
  | zero =>
    refine ⟨_, _, .add (.term (.unary hone)) (.mul (.unary hone) hone), by simp, ?_⟩
    simp [activations_binary, spread, leftmost, chain]
  | succ n ih =>
    obtain ⟨w, e, he, heof, hcount⟩ := ih
    have hcall : Primary _ (.call .sin [e]) (max (n + 1) 0) :=
      .call (s := "sin") (by decide) (.some he .none) rfl
    have hpower : Unary _ (.binary .pow (.call .sin [e]) (.literal (.zero false))) _ :=
      .power (.pow hcall hone)
    have hsum := Expression.add (.term (.unary hone)) (.mul (.unary hone) hpower)
    have hlevels : max 0 (max 0 (max (max (n + 1) 0) (0 + 1))) = n + 1 := by omega
    refine ⟨_, _, hlevels ▸ hsum, by simpa [or_imp, forall_and] using heof, ?_⟩
    simp only [activations_binary, spread, leftmost, chain, activations_literal, activations_call,
      List.map_cons, List.map_nil, List.foldr_cons, List.foldr_nil, hcount]
    omega

end Grammar

/-- **The limit on nesting bounds the stack of the evaluator**, however long the formula is: at most
four activations for each level and three more nest on the expression of a formula, so that a stack
with this room is enough. At every limit there is a formula that takes all of them. -/
theorem Expr.activations_le_of_parse :
    (∀ (maxDepth : Nat) (ts : List Spelled) (e : Expr), Expr.parse maxDepth ts = .ok e →
      e.activations ≤ 4 * maxDepth + 3 ∧ e.evalWithin (4 * maxDepth + 3) = outcome e.eval) ∧
    ∀ maxDepth, ∃ (ts : List Spelled) (e : Expr),
      Expr.parse maxDepth ts = .ok e ∧ e.activations = 4 * maxDepth + 3 := by
  constructor
  · intro maxDepth ts e h
    obtain ⟨n, hn, he⟩ := Expr.parse_eq_ok_iff.1 h
    have hle : e.activations ≤ 4 * maxDepth + 3 := by
      have := activations_le_of_spread_le he.spread_le
      omega
    exact ⟨hle, evalWithin_of_le hle⟩
  · intro maxDepth
    obtain ⟨w, e, he, heof, hcount⟩ := Grammar.exists_expression_activations_eq maxDepth
    have hbody : (Expr.body (w.map Spelled.ofToken)).map Spelled.token = w := by
      rw [Expr.map_token_body, List.map_map, List.takeWhile_eq_self_iff.2]
      · simp [Spelled.ofToken, Function.comp_def]
      · simpa [Spelled.ofToken] using heof
    exact ⟨w.map Spelled.ofToken, e, Expr.parse_eq_ok_iff.2 ⟨maxDepth, le_rfl, hbody.symm ▸ he⟩,
      hcount⟩

/-- The tokens of `0 + 0 * sin(0 + 0 * 0) ^ 0`, with one level. -/
theorem Expr.activations_le_of_parse_sine :
    ∃ e, Expr.parse 1 ([.number (.zero false), .operator .add, .number (.zero false),
        .operator .mul, .name "sin", .openParen, .number (.zero false), .operator .add,
        .number (.zero false), .operator .mul, .number (.zero false), .closeParen, .operator .pow,
        .number (.zero false)].map Spelled.ofToken) = .ok e ∧
      e.activations ≤ 4 * 1 + 3 ∧ e.evalWithin (4 * 1 + 3) = outcome e.eval := by
  have hparse : Expr.parse 1 ([.number (.zero false), .operator .add, .number (.zero false),
      .operator .mul, .name "sin", .openParen, .number (.zero false), .operator .add,
      .number (.zero false), .operator .mul, .number (.zero false), .closeParen, .operator .pow,
      .number (.zero false)].map Spelled.ofToken) =
      .ok (.binary .add (.literal (.zero false)) (.binary .mul (.literal (.zero false))
        (.binary .pow (.call .sin [.binary .add (.literal (.zero false))
          (.binary .mul (.literal (.zero false)) (.literal (.zero false)))])
          (.literal (.zero false))))) := by
    cbv
  exact ⟨_, hparse, Expr.activations_le_of_parse.1 _ _ _ hparse⟩

end Reckoner
