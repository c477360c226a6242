import Mathlib
import Reckoner.Expr.Basic

/-!
# The Nodes of an Expression

A node and its operands, whatever the kind of the node, and the order in which an expression is
worked off: first the operands of a node, from left to right, and then the node itself.

Main definitions:

* `Expr.operands`: the operands of a node;
* `Expr.Within`: an expression is part of another one, at any depth;
* `Expr.postorder`: the parts of an expression, operands before their node.

Main results:

* `Expr.operands_induction`: what passes from operands to their node holds of all expressions;
* `Expr.mem_postorder_iff`: the parts of an expression are those that are listed.
-/

namespace Reckoner

namespace Expr

/-- The operands of a node, from left to right. -/
def operands : Expr → List Expr
  | literal _ => []
  | constant _ => []
  | negate e => [e]
  | binary _ l r => [l, r]
  | call _ args => args

/-- **Induction over nodes**: what passes from the operands of a node to the node holds of every
expression. -/
theorem operands_induction {motive : Expr → Prop}
    (node : ∀ e : Expr, (∀ s ∈ e.operands, motive s) → motive e) (e : Expr) : motive e := by
  -- The second motive is that of the arguments of a call.
  refine @Expr.rec motive (fun args => ∀ s ∈ args, motive s) ?_ ?_ ?_ ?_ ?_ ?_ ?_ e
  · intro x
    exact node _ (by simp [operands])
  · intro c
    exact node _ (by simp [operands])
  · intro e he
    exact node _ (by simpa [operands] using he)
  · intro op l r hl hr
    exact node _ (by simpa [operands] using ⟨hl, hr⟩)
  · intro f args hargs
    exact node _ hargs
  · simp
  · intro e args he hargs
    simpa using ⟨he, hargs⟩

/-- An expression is **within** another one if it is that one or, at any depth, part of it. -/
def Within (s e : Expr) : Prop :=
  Relation.ReflTransGen (fun t u => t ∈ u.operands) s e

/-- An operand is a part. -/
theorem within_of_mem_operands {s e : Expr} (h : s ∈ e.operands) : s.Within e :=
  Relation.ReflTransGen.single h

/-- What is within a node is the node or within one of its operands. -/
theorem within_iff {s e : Expr} : s.Within e ↔ s = e ∨ ∃ t ∈ e.operands, s.Within t := by
  rw [Within, Relation.ReflTransGen.cases_tail_iff]
  constructor
  · rintro (h | ⟨t, hst, hte⟩)
    · exact .inl h.symm
    · exact .inr ⟨t, hte, hst⟩
  · rintro (h | ⟨t, hte, hst⟩)
    · exact .inl h.symm
    · exact .inr ⟨t, hst, hte⟩

/-! ### The order of evaluation -/

mutual

/-- The parts of an expression, operands before their node and from left to right. -/
def postorder : Expr → List Expr
  | literal x => [literal x]
  | constant c => [constant c]
  | negate e => e.postorder ++ [negate e]
  | binary op l r => l.postorder ++ r.postorder ++ [binary op l r]
  | call f args => postorderArgs args ++ [call f args]

/-- The parts of arguments, from left to right. -/
def postorderArgs : List Expr → List Expr
  | [] => []
  | e :: args => e.postorder ++ postorderArgs args

end

/-- The order of a list of arguments is that of each of them, one behind the other. -/
theorem postorderArgs_eq_flatMap (args : List Expr) :
    postorderArgs args = args.flatMap postorder := by
  induction args with
  | nil => rw [postorderArgs, List.flatMap_nil]
  | cons e args ih => rw [postorderArgs, ih, List.flatMap_cons]

/-- The order is the same at every node. -/
theorem postorder_eq (e : Expr) : e.postorder = e.operands.flatMap postorder ++ [e] := by
  cases e with
  | literal x => simp [postorder, operands]
  | constant c => simp [postorder, operands]
  | negate e => simp [postorder, operands]
  | binary op l r => simp [postorder, operands]
  | call f args => rw [postorder, postorderArgs_eq_flatMap, operands]

/-- **The parts of an expression are those that are listed.** -/
theorem mem_postorder_iff {s e : Expr} : s ∈ e.postorder ↔ s.Within e := by
  induction e using operands_induction with
  | node e ih =>
    rw [postorder_eq, List.mem_append, List.mem_flatMap, List.mem_singleton, within_iff, or_comm]
    have hoperands : (∃ t ∈ e.operands, s ∈ t.postorder) ↔ ∃ t ∈ e.operands, s.Within t :=
      exists_congr fun t => and_congr_right (ih t)
    rw [hoperands]

end Expr

end Reckoner
