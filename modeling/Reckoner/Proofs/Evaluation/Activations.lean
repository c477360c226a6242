import Mathlib
import Reckoner.Proofs.Evaluation.Recursion

/-!
# Nested Activations

How often the evaluator is active at once. A chain of operators is worked off in a loop, so that its
operators cost nothing: the evaluator calls itself on the leftmost operand and on the right operands
of the chain, one after the other.

Main definitions:

* `Expr.activated`: the expressions that the evaluator calls itself on;
* `Expr.activations`: the number of activations of the evaluator that nest on an expression;
* `Expr.spread`: the activations that the operands of a chain take;
* `Expr.evalWithin`: the evaluator on a stack with room for so many activations.

Main results:

* `Expr.evalWithin_of_le`: a stack with room for the activations of an expression is enough;
* `Expr.activations_le_of_evalWithin`: where an expression has a value, no smaller stack is.
-/

namespace Reckoner

namespace Expr

/-! ### Counting activations -/

/-- The expressions that the evaluator calls itself on: the operand of a sign, the leftmost operand
and the right operands of a chain, the arguments of a call. -/
def activated : Expr → List Expr
  | literal _ => []
  | constant _ => []
  | negate e => [e]
  | binary op l r => (binary op l r).leftmost :: (binary op l r).chain.map Prod.snd
  | call _ args => args

/-- The leftmost operand of a chain is no larger than the chain. -/
theorem sizeOf_leftmost_le : ∀ e : Expr, sizeOf e.leftmost ≤ sizeOf e
  | literal _ | constant _ | negate _ | call _ _ => le_rfl
  | binary op l r => by
    have := sizeOf_leftmost_le l
    simp only [leftmost, binary.sizeOf_spec]
    omega

/-- A right operand of a chain is smaller than the chain. -/
theorem sizeOf_lt_of_mem_chain {e : Expr} {next : Operator × Expr} (h : next ∈ e.chain) :
    sizeOf next.2 < sizeOf e := by
  match e with
  | literal _ | constant _ | negate _ | call _ _ => simp [chain] at h
  | binary op l r =>
    simp only [chain, List.mem_append, List.mem_singleton] at h
    rcases h with h | rfl
    · have := sizeOf_lt_of_mem_chain h
      simp only [binary.sizeOf_spec]
      omega
    · simp only [binary.sizeOf_spec]
      omega

/-- The evaluator calls itself on smaller expressions only. -/
theorem sizeOf_lt_of_mem_activated {s e : Expr} (h : s ∈ e.activated) : sizeOf s < sizeOf e := by
  cases e with
  | literal x => simp [activated] at h
  | constant c => simp [activated] at h
  | negate e =>
    obtain rfl := List.mem_singleton.1 h
    simp
  | binary op l r =>
    rcases List.mem_cons.1 h with rfl | h
    · have := sizeOf_leftmost_le l
      simp only [leftmost, binary.sizeOf_spec]
      omega
    · obtain ⟨next, hnext, rfl⟩ := List.mem_map.1 h
      exact sizeOf_lt_of_mem_chain hnext
  | call f args =>
    have : sizeOf s < sizeOf args := List.sizeOf_lt_of_mem h
    simp only [call.sizeOf_spec]
    omega

/-- The number of activations that **nest** on an expression: its own, and the most that nest on an
expression the evaluator calls itself on. -/
def activations (e : Expr) : Nat :=
  1 + (e.activated.attach.map fun s => s.1.activations).foldr max 0
termination_by sizeOf e
decreasing_by exact sizeOf_lt_of_mem_activated s.2

/-- Evaluation takes one activation for an expression, and on top of it the most that any of the
expressions takes that it calls itself on. -/
theorem activations_eq (e : Expr) :
    e.activations = 1 + (e.activated.map activations).foldr max 0 := by
  rw [activations, List.attach_map_val]

/-- A maximum is bounded if every number is. -/
theorem foldr_max_le_iff {l : List Nat} {n : Nat} : l.foldr max 0 ≤ n ↔ ∀ k ∈ l, k ≤ n := by
  induction l with
  | nil => simp
  | cons k l ih => simp [ih]

/-- **Activations fit** into a number if those on the expressions that the evaluator calls itself on
fit into one less. -/
theorem activations_le_succ_iff {e : Expr} {n : Nat} :
    e.activations ≤ n + 1 ↔ ∀ s ∈ e.activated, s.activations ≤ n := by
  rw [activations_eq, Nat.add_comm 1, Nat.add_le_add_iff_right, foldr_max_le_iff]
  simp

@[simp] theorem activations_literal (x : Binary64) : (literal x).activations = 1 :=
  activations_eq _

@[simp] theorem activations_constant (c : Constant) : (constant c).activations = 1 :=
  activations_eq _

/-- A sign takes one more than its operand. -/
theorem activations_negate (e : Expr) : (negate e).activations = 1 + e.activations := by
  simp [activations_eq (negate e), activated]

/-- A call takes one more than any of its arguments. -/
theorem activations_call (f : Function) (args : List Expr) :
    (call f args).activations = 1 + (args.map activations).foldr max 0 :=
  activations_eq _

/-- There is no evaluation without an activation. -/
theorem activations_pos (e : Expr) : 0 < e.activations := by
  rw [activations_eq]
  omega

/-! ### Chains -/

/-- The **spread** of a chain: the most activations that nest on its leftmost operand or on one of
its right operands. -/
def spread (e : Expr) : Nat :=
  max e.leftmost.activations ((e.chain.map fun next => next.2.activations).foldr max 0)

/-- One more operator at the end of a chain adds its right operand to the spread. -/
theorem spread_binary (op : Operator) (l r : Expr) :
    (binary op l r).spread = max l.spread r.activations := by
  have happend : ∀ (ks : List Nat) (k : Nat), (ks ++ [k]).foldr max 0 = max (ks.foldr max 0) k := by
    intro ks k
    induction ks with
    | nil => simp
    | cons k' ks ih => simp [ih, max_assoc]
  rw [spread, spread, leftmost, chain, List.map_append, List.map_singleton, happend, max_assoc]

/-- An operator takes one more than the spread of what is to its left and than its right operand. -/
theorem activations_binary (op : Operator) (l r : Expr) :
    (binary op l r).activations = 1 + max l.spread r.activations := by
  rw [← spread_binary op, activations_eq, activated, List.map_cons, List.foldr_cons, List.map_map]
  rfl

/-- An expression that is no chain is its own leftmost operand. -/
theorem spread_le_activations (e : Expr) : e.spread ≤ e.activations := by
  cases e with
  | binary op l r =>
    rw [activations_binary, spread_binary]
    omega
  | literal x | constant c | negate e | call f args => simp [spread, leftmost, chain]

/-- A chain takes one activation more than its operands. -/
theorem activations_le_of_spread_le {e : Expr} {n : Nat} (h : e.spread ≤ n) :
    e.activations ≤ n + 1 := by
  cases e with
  | binary op l r =>
    rw [spread_binary] at h
    rw [activations_binary]
    omega
  | literal x | constant c | negate e | call f args =>
    simp only [spread, leftmost, max_le_iff] at h
    omega

/-! ### A stack with room for so many activations -/

/-- The outcome of a step that takes no activation of its own. -/
def outcome {α : Type} (x : Except FormulaError α) : ExceptT FormulaError Option α :=
  ExceptT.mk (some x)

/-- The evaluator on a stack with room for `room` activations: each call takes one, and a chain is
worked off in a loop. With no room left there is no outcome. -/
def evalWithin : (room : Nat) → Expr → ExceptT FormulaError Option Binary64
  | 0, _ => ExceptT.mk none
  | _ + 1, literal x => outcome (requireFinite .literal x)
  | _ + 1, constant c => outcome (.ok c.value)
  | room + 1, negate e => do
    let x ← evalWithin room e
    outcome (.ok x.neg)
  | room + 1, binary op l r => do
    let x ← evalWithin room (binary op l r).leftmost
    (binary op l r).chain.foldlM (fun x next => do
      let y ← evalWithin room next.2
      outcome (next.1.apply x y)) x
  | room + 1, call f args => do
    let xs ← args.mapM (evalWithin room)
    outcome (f.call xs)

/-- Steps without activations of their own follow one another as results do. -/
theorem outcome_bind {α β : Type} (x : Except FormulaError α) (f : α → Except FormulaError β) :
    outcome (x >>= f) = outcome x >>= fun a => outcome (f a) := by
  cases x <;> rfl

/-- Expressions that have their outcomes on a stack have them one after the other. -/
theorem mapM_evalWithin {room : Nat} {args : List Expr}
    (h : ∀ s ∈ args, s.evalWithin room = outcome s.eval) :
    args.mapM (evalWithin room) = outcome (evalArgs args) := by
  induction args with
  | nil => rfl
  | cons e args ih =>
    obtain ⟨he, hargs⟩ := List.forall_mem_cons.1 h
    rw [List.mapM_cons, he, ih hargs, evalArgs_cons, outcome_bind]
    simp only [outcome_bind]
    rfl

/-- Likewise the rounds of a loop along a chain. -/
theorem foldlM_evalWithin {room : Nat} {chain : List (Operator × Expr)}
    (h : ∀ next ∈ chain, next.2.evalWithin room = outcome next.2.eval) (x : Binary64) :
    chain.foldlM (fun x next => do
      let y ← next.2.evalWithin room
      outcome (next.1.apply x y)) x = outcome (chain.foldlM applyNext x) := by
  induction chain generalizing x with
  | nil => rfl
  | cons next chain ih =>
    obtain ⟨hnext, hchain⟩ := List.forall_mem_cons.1 h
    simp only [List.foldlM_cons, hnext, applyNext, outcome_bind, bind_assoc, ih hchain]

/-- **Enough room**: evaluation has its outcome on a stack with room for the activations. -/
theorem evalWithin_of_le {e : Expr} {room : Nat} (h : e.activations ≤ room) :
    e.evalWithin room = outcome e.eval := by
  induction room generalizing e with
  | zero => exact absurd h (Nat.not_le.2 e.activations_pos)
  | succ room ih =>
    have hactivated : ∀ s ∈ e.activated, s.evalWithin room = outcome s.eval := fun s hs =>
      ih (activations_le_succ_iff.1 h s hs)
    cases e with
    | literal x => rw [evalWithin, eval_literal]
    | constant c => rw [evalWithin, eval_constant]
    | negate e =>
      rw [evalWithin, eval_negate, hactivated e List.mem_cons_self, outcome_bind]
    | binary op l r =>
      obtain ⟨hleftmost, hchain⟩ := List.forall_mem_cons.1 hactivated
      rw [List.forall_mem_map] at hchain
      rw [evalWithin, eval_eq_foldlM_chain, hleftmost, outcome_bind]
      simp only [foldlM_evalWithin hchain]
    | call f args =>
      have hargs : ∀ s ∈ args, s.evalWithin room = outcome s.eval := hactivated
      rw [evalWithin, eval_call, mapM_evalWithin hargs, outcome_bind]

/-! ### No other room is enough -/

/-- Two steps that have a value together have values one after the other. -/
theorem bind_eq_outcome_ok {α β : Type} {x : ExceptT FormulaError Option α}
    {f : α → ExceptT FormulaError Option β} {b : β} (h : x >>= f = outcome (.ok b)) :
    ∃ a, x = outcome (.ok a) ∧ f a = outcome (.ok b) := by
  cases x with
  | none => cases h
  | some x =>
    cases x with
    | error err => cases h
    | ok a => exact ⟨a, rfl, h⟩

/-- Where all arguments have values on the stack, there was room for each of them. -/
theorem activations_le_of_mapM {room : Nat} {args : List Expr} {xs : List Binary64}
    (ih : ∀ s x, evalWithin room s = outcome (.ok x) → s.activations ≤ room)
    (h : args.mapM (evalWithin room) = outcome (.ok xs)) : ∀ s ∈ args, s.activations ≤ room := by
  induction args generalizing xs with
  | nil => simp
  | cons e args iha =>
    rw [List.mapM_cons] at h
    obtain ⟨x, hx, h⟩ := bind_eq_outcome_ok h
    obtain ⟨xs', hxs, -⟩ := bind_eq_outcome_ok h
    exact List.forall_mem_cons.2 ⟨ih e x hx, iha hxs⟩

/-- Where a chain is worked off on the stack, there was room for each right operand. -/
theorem activations_le_of_foldlM {room : Nat} {chain : List (Operator × Expr)} {x z : Binary64}
    (ih : ∀ s x, evalWithin room s = outcome (.ok x) → s.activations ≤ room)
    (h : chain.foldlM (fun x next => do
      let y ← next.2.evalWithin room
      outcome (next.1.apply x y)) x = outcome (.ok z)) :
    ∀ next ∈ chain, next.2.activations ≤ room := by
  induction chain generalizing x with
  | nil => simp
  | cons next chain ihc =>
    rw [List.foldlM_cons] at h
    obtain ⟨x', hx, h⟩ := bind_eq_outcome_ok h
    obtain ⟨y, hy, -⟩ := bind_eq_outcome_ok hx
    exact List.forall_mem_cons.2 ⟨ih _ y hy, ihc h⟩

/-- **No other room is enough**: where an expression has a value on a stack, its activations fit. -/
theorem activations_le_of_evalWithin {e : Expr} {room : Nat} {x : Binary64}
    (h : e.evalWithin room = outcome (.ok x)) : e.activations ≤ room := by
  induction room generalizing e x with
  | zero => cases h
  | succ room ih =>
    rw [activations_le_succ_iff]
    cases e with
    | literal x => simp [activated]
    | constant c => simp [activated]
    | negate e =>
      rw [evalWithin] at h
      obtain ⟨y, hy, -⟩ := bind_eq_outcome_ok h
      exact List.forall_mem_singleton.2 (ih hy)
    | binary op l r =>
      rw [evalWithin] at h
      obtain ⟨y, hy, h⟩ := bind_eq_outcome_ok h
      have hchain := activations_le_of_foldlM (fun _ _ => ih) h
      exact List.forall_mem_cons.2 ⟨ih hy, List.forall_mem_map.2 hchain⟩
    | call f args =>
      rw [evalWithin] at h
      obtain ⟨xs, hxs, -⟩ := bind_eq_outcome_ok h
      exact activations_le_of_mapM (fun _ _ => ih) hxs

end Expr

end Reckoner
