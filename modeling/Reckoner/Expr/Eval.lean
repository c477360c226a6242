import Reckoner.Expr.Basic
import Reckoner.Function.Apply

/-!
# Evaluation

The value of an expression, a finite number. Every literal and every result of an operator or a
function is checked, so that an infinity or a NaN anywhere in an expression is an error of the
whole and is never absorbed by a later operation.

A chain such as `1 + 2 + 3 + 4` is a tree that leans to the left. It is evaluated without descending
once per operator: going down the left operands, what is to be done with the value of the leftmost
one is put on a stack of *pending* operations, which is then worked off from the top.

Main definitions:

* `requireFinite` — the check of a result;
* `Pending`, `finish` — operations that wait for their left operand, and their completion;
* `Expr.eval` — the value of an expression.
-/

namespace Reckoner

/-- Lets finite numbers pass; others are an error of the operation they result from. -/
def requireFinite (operation : Operation) (x : Binary64) : Except FormulaError Binary64 :=
  if x.isFinite then .ok x else .error (.domain (.notFinite operation x))

/-- The number that an operator yields, unchecked. -/
def Operator.compute : Operator → Binary64 → Binary64 → Binary64
  | add => Binary64.add
  | sub => Binary64.sub
  | mul => Binary64.mul
  | div => Binary64.div
  | pow => Binary64.pow

/-- The value of an operator at its operands. -/
def Operator.apply (op : Operator) (l r : Binary64) : Except FormulaError Binary64 :=
  requireFinite (.binary op l r) (op.compute l r)

/-- The value of a function at its arguments, checked. -/
def Function.call (f : Function) (args : List Binary64) : Except FormulaError Binary64 := do
  let x ← f.apply args
  requireFinite (.call f args) x

/-- An operator that waits for its left operand, with the outcome of its right one. -/
structure Pending where
  /-- The operator. -/
  op : Operator
  /-- What the right operand evaluates to. -/
  right : Except FormulaError Binary64

/-- Completes pending operations, the top of the stack first, on the value of the leftmost operand.
The first error ends it, and operands to the left count as earlier. -/
def finish (value : Binary64) : List Pending → Except FormulaError Binary64
  | [] => .ok value
  | p :: pending => do
    let right ← p.right
    let value ← p.op.apply value right
    finish value pending

namespace Expr

mutual

/-- Evaluates an expression and completes the pending operations on its value. -/
def evalThen : Expr → List Pending → Except FormulaError Binary64
  | literal x, pending => do
    let x ← requireFinite .literal x
    finish x pending
  | constant c, pending => finish c.value pending
  | negate e, pending => do
    let x ← evalThen e []
    finish x.neg pending
  | binary op l r, pending => evalThen l (⟨op, evalThen r []⟩ :: pending)
  | call f args, pending => do
    let xs ← evalArgs args
    let x ← f.call xs
    finish x pending

/-- The values of arguments, from left to right. -/
def evalArgs : List Expr → Except FormulaError (List Binary64)
  | [] => .ok []
  | e :: args => do
    let x ← evalThen e []
    let xs ← evalArgs args
    .ok (x :: xs)

end

/-- The value of an expression. -/
def eval (e : Expr) : Except FormulaError Binary64 :=
  e.evalThen []

end Expr

end Reckoner
