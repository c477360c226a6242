import Mathlib
import Reckoner.Proofs.Evaluation.Nodes
import Reckoner.Proofs.Evaluation.Recursion

/-!
# The Order of Evaluation

Nodes are strict: a node fails with the error of its first operand that fails, and only if none does
with one of its own. Along an expression this makes the error that of the first part that fails,
operands before their node.

Main results:

* `Expr.failure?_operands_or`: an operand that fails comes before its node;
* `Expr.failure?_eval`: the failure of an expression is the first one among its parts;
* `Expr.eval_refines_evalByNode`: the stack of pending operations, the loop along a chain and the
  evaluator that follows the tree are one, down to the error.
-/

namespace Reckoner

namespace Expr

/-- Arguments fail as the first one of them that fails. -/
theorem failure?_evalArgs (args : List Expr) :
    failure? (evalArgs args) = args.findSome? fun s => failure? s.eval := by
  induction args with
  | nil => rw [evalArgs, List.findSome?_nil, failure?_ok]
  | cons e args ih =>
    rw [evalArgs_cons, List.findSome?_cons, ← ih]
    cases e.eval with
    | error err => rfl
    | ok x => cases evalArgs args <;> rfl

/-- Arguments have values if and only if each of them has. -/
theorem exists_evalArgs_eq_ok_iff {args : List Expr} :
    (∃ xs, evalArgs args = .ok xs) ↔ ∀ e ∈ args, ∃ x, e.eval = .ok x := by
  simp only [← failure?_eq_none_iff, failure?_evalArgs, List.findSome?_eq_none_iff]

/-- The first argument without a value settles the error of them all. -/
theorem evalArgs_eq_error_iff {args : List Expr} {err : FormulaError} :
    evalArgs args = .error err ↔ ∃ before e after, args = before ++ e :: after ∧
      e.eval = .error err ∧ ∀ t ∈ before, ∃ x, t.eval = .ok x := by
  simp only [← failure?_eq_some_iff, failure?_evalArgs, List.findSome?_eq_some_iff,
    failure?_eq_none_iff]

/-- **An operand that fails comes before its node.** -/
theorem failure?_operands_or (e : Expr) :
    (e.operands.findSome? fun s => failure? s.eval).or (failure? e.eval) = failure? e.eval := by
  cases e with
  | literal x => rfl
  | constant c => rfl
  | negate e =>
    rw [operands, eval_negate]
    cases h : e.eval <;> simp [h]
  | binary op l r =>
    rw [operands, eval_binary]
    cases hl : l.eval with
    | error err => simp [hl]
    | ok x => cases hr : r.eval <;> simp [hl, hr]
  | call f args =>
    rw [operands, eval_call, ← failure?_evalArgs]
    cases evalArgs args <;> simp

/-- A node that fails has operands with values, or fails as the first one of them that fails. -/
theorem operands_of_eval_eq_error {e : Expr} {err : FormulaError} (h : e.eval = .error err) :
    (∀ s ∈ e.operands, ∃ x, s.eval = .ok x) ∨
      ∃ before s after, e.operands = before ++ s :: after ∧ s.eval = .error err ∧
        ∀ t ∈ before, ∃ x, t.eval = .ok x := by
  have hfirst := e.failure?_operands_or
  rw [h, failure?_error] at hfirst
  cases hfind : e.operands.findSome? fun s => failure? s.eval with
  | none =>
    rw [List.findSome?_eq_none_iff] at hfind
    exact .inl fun s hs => failure?_eq_none_iff.1 (hfind s hs)
  | some err' =>
    rw [hfind, Option.some_or] at hfirst
    obtain rfl := Option.some.inj hfirst
    obtain ⟨before, s, after, hsplit, hs, hbefore⟩ := List.findSome?_eq_some_iff.1 hfind
    exact .inr ⟨before, s, after, hsplit, failure?_eq_some_iff.1 hs,
      fun t ht => failure?_eq_none_iff.1 (hbefore t ht)⟩

/-- What is found first in a list of lists, where each list stands for one element. -/
theorem findSome?_flatMap_of_forall {α β γ : Type} {f : α → Option γ} {g : β → Option γ}
    {parts : α → List β} {l : List α} (h : ∀ a ∈ l, f a = (parts a).findSome? g) :
    (l.flatMap parts).findSome? g = l.findSome? f := by
  induction l with
  | nil => rfl
  | cons a l ih =>
    rw [List.flatMap_cons, List.findSome?_append, ih fun b hb => h b (List.mem_cons_of_mem a hb),
      List.findSome?_cons, ← h a List.mem_cons_self]
    cases f a <;> rfl

/-- **The failure of an expression is the first one among its parts.** -/
theorem failure?_eval (e : Expr) :
    failure? e.eval = e.postorder.findSome? fun s => failure? s.eval := by
  induction e using operands_induction with
  | node e ih =>
    rw [postorder_eq, List.findSome?_append, findSome?_flatMap_of_forall ih,
      List.findSome?_singleton, failure?_operands_or]

/-- An expression fails with the error of the part that fails where all parts before it have a
value. -/
theorem eval_eq_error_iff {e : Expr} {err : FormulaError} :
    e.eval = .error err ↔ ∃ before s after, e.postorder = before ++ s :: after ∧
      s.eval = .error err ∧ ∀ t ∈ before, ∃ x, t.eval = .ok x := by
  rw [← failure?_eq_some_iff, failure?_eval, List.findSome?_eq_some_iff]
  simp only [failure?_eq_some_iff, failure?_eq_none_iff]

/-- An expression has a value if and only if all its parts have one. -/
theorem exists_eval_eq_ok_iff {e : Expr} :
    (∃ x, e.eval = .ok x) ↔ ∀ s : Expr, s.Within e → ∃ x, s.eval = .ok x := by
  rw [← failure?_eq_none_iff, failure?_eval, List.findSome?_eq_none_iff]
  simp only [mem_postorder_iff, failure?_eq_none_iff]

/-- **Evaluation is that of the tree, in order.** The value or error is that of the evaluator that
follows the tree, and also that of the loop along a chain of operators; and an error is that of the
first part of the expression that fails, operands before their node and from left to right. -/
theorem eval_refines_evalByNode (e : Expr) :
    e.eval = e.evalByNode ∧
    (e.eval = e.leftmost.eval >>= fun x => e.chain.foldlM applyNext x) ∧
    ∀ err, e.eval = .error err ↔ ∃ before s after, e.postorder = before ++ s :: after ∧
      s.evalByNode = .error err ∧ ∀ t ∈ before, ∃ x, t.evalByNode = .ok x := by
  refine ⟨e.eval_eq_evalByNode, e.eval_eq_foldlM_chain, fun err => ?_⟩
  simp only [← eval_eq_evalByNode]
  exact eval_eq_error_iff

end Expr

end Reckoner
