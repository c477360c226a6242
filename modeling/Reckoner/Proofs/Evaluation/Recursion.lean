import Mathlib
import Reckoner.Expr.Eval
import Reckoner.Proofs.Steps

/-!
# Evaluation by Recursion

Evaluation keeps a stack of pending operations so as not to descend once per operator of a chain.
The value does not show it: it is that of the evaluator that follows the tree, operands first and
from left to right, and also that of a loop along the chain.

Main definitions:

* `Expr.evalByNode`: the evaluator that follows the tree;
* `Expr.leftmost`, `Expr.chain`: the leftmost operand of a chain of operators, and the operators
  with their right operands.

Main results:

* `Expr.evalThen_eq`: pending operations wait for the value;
* `Expr.eval_eq_evalByNode`: evaluation follows the tree;
* `Expr.eval_eq_foldlM_chain`: a chain is worked off from left to right.
-/

namespace Reckoner

namespace Expr

/-! ### The evaluator that follows the tree -/

mutual

/-- The value of an expression, from the values of its operands. -/
def evalByNode : Expr → Except FormulaError Binary64
  | literal x => requireFinite .literal x
  | constant c => .ok c.value
  | negate e => do
    let x ← e.evalByNode
    .ok x.neg
  | binary op l r => do
    let x ← l.evalByNode
    let y ← r.evalByNode
    requireFinite (.binary op x y) (op.compute x y)
  | call f args => do
    let xs ← evalArgsByNode args
    f.checkCount xs.length
    let x ← f.compute xs
    requireFinite (.call f xs) x

/-- The values of arguments, from left to right. -/
def evalArgsByNode : List Expr → Except FormulaError (List Binary64)
  | [] => .ok []
  | e :: args => do
    let x ← e.evalByNode
    let xs ← evalArgsByNode args
    .ok (x :: xs)

end

/-! ### Pending operations -/

/-- **Pending operations wait for the value**: evaluation is that of the expression alone, and then
they are completed. -/
theorem evalThen_eq (e : Expr) (pending : List Pending) :
    e.evalThen pending = e.eval >>= fun x => finish x pending := by
  -- Only a chain puts anything on the stack, so the induction goes down its left operands.
  match e with
  | literal x =>
    rw [eval, evalThen, evalThen, bind_assoc]
    rfl
  | constant c => rw [eval, evalThen, evalThen, finish, ok_bind]
  | negate e =>
    rw [eval, evalThen, evalThen, bind_assoc]
    rfl
  | call f args =>
    rw [eval, evalThen, evalThen, bind_assoc]
    simp only [bind_assoc, finish, ok_bind]
  | binary op l r =>
    rw [eval, evalThen, evalThen, evalThen_eq l, evalThen_eq l [_]]
    simp only [finish, bind_assoc, ok_bind]

/-! ### One equation for each kind of node -/

/-- The value of a literal is its number, if that is finite. -/
theorem eval_literal (x : Binary64) : (literal x).eval = requireFinite .literal x := by
  rw [eval, evalThen]
  exact bind_ok _

/-- The value of a constant needs no check. -/
theorem eval_constant (c : Constant) : (constant c).eval = .ok c.value := by
  rw [eval, evalThen, finish]

/-- A sign changes the sign of the value of its operand. -/
theorem eval_negate (e : Expr) : (negate e).eval = e.eval >>= fun x => .ok x.neg := by
  rw [eval, evalThen]
  rfl

/-- An operator applies to the value of its left operand and then to that of its right one. -/
theorem eval_binary (op : Operator) (l r : Expr) :
    (binary op l r).eval = l.eval >>= fun x => r.eval >>= fun y => op.apply x y := by
  rw [eval, evalThen, evalThen_eq l]
  simp only [finish, bind_ok]
  rfl

/-- Arguments are evaluated from left to right. -/
theorem evalArgs_cons (e : Expr) (args : List Expr) :
    evalArgs (e :: args) = e.eval >>= fun x => evalArgs args >>= fun xs => .ok (x :: xs) := by
  rw [evalArgs]
  rfl

/-- A function is called on the values of its arguments. -/
theorem eval_call (f : Function) (args : List Expr) :
    (call f args).eval = evalArgs args >>= fun xs => f.call xs := by
  rw [eval, evalThen]
  simp only [finish, bind_ok]

/-! ### Evaluation follows the tree -/

mutual

/-- **Evaluation follows the tree**: the stack of pending operations does not show in the value or
in the error. -/
theorem eval_eq_evalByNode : ∀ e : Expr, e.eval = e.evalByNode
  | literal x => by rw [eval_literal, evalByNode]
  | constant c => by rw [eval_constant, evalByNode]
  | negate e => by rw [eval_negate, evalByNode, eval_eq_evalByNode e]
  | binary op l r => by
    rw [eval_binary, evalByNode, eval_eq_evalByNode l, eval_eq_evalByNode r]
    rfl
  | call f args => by
    rw [eval_call, evalByNode, evalArgs_eq_evalArgsByNode args]
    simp only [Function.call, Function.apply, bind_assoc]

/-- So do the values of arguments. -/
theorem evalArgs_eq_evalArgsByNode : ∀ args : List Expr, evalArgs args = evalArgsByNode args
  | [] => by rw [evalArgs, evalArgsByNode]
  | e :: args => by
    rw [evalArgs_cons, evalArgsByNode, eval_eq_evalByNode e, evalArgs_eq_evalArgsByNode args]

end

/-! ### Chains of operators -/

/-- The leftmost operand of a chain of operators. -/
def leftmost : Expr → Expr
  | binary _ l _ => l.leftmost
  | e => e

/-- The operators of a chain with their right operands, from left to right. -/
def chain : Expr → List (Operator × Expr)
  | binary op l r => l.chain ++ [(op, r)]
  | _ => []

/-- One round of a loop along a chain: the right operand is evaluated, and then the operator is
applied. -/
def applyNext (x : Binary64) (next : Operator × Expr) : Except FormulaError Binary64 := do
  let y ← next.2.eval
  next.1.apply x y

/-- **A chain is worked off from left to right**, whatever its operators. -/
theorem eval_eq_foldlM_chain (e : Expr) :
    e.eval = e.leftmost.eval >>= fun x => e.chain.foldlM applyNext x := by
  match e with
  | literal x => exact (bind_ok _).symm
  | constant c => exact (bind_ok _).symm
  | negate e => exact (bind_ok _).symm
  | call f args => exact (bind_ok _).symm
  | binary op l r =>
    rw [eval_binary, eval_eq_foldlM_chain l, leftmost, chain, bind_assoc]
    simp only [List.foldlM_append, List.foldlM_cons, List.foldlM_nil]
    simp only [applyNext, bind_pure]

end Expr

end Reckoner
