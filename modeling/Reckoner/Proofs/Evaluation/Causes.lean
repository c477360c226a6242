import Mathlib
import Reckoner.Proofs.Evaluation.Finite
import Reckoner.Proofs.Parsing.Grammar

/-!
# The Causes of Errors

Where every function is called with a number of arguments that it accepts, only numbers can make an
evaluation fail: a literal, the result of an operator or that of a function is not finite, or a
square root or a logarithm is asked for outside its domain. The grammar lets no other calls through.

Main definitions:

* `Expr.CallsAccepted`: all functions are called with numbers of arguments that they accept;
* `Function.Refuses`: a function is not defined at its arguments;
* `Expr.Cause`: the operands of a node have values, and the node has none.

Main results:

* `Expr.exists_cause`: only numbers can make a node fail;
* `Expr.CallsAccepted.eval_eq_error_iff`: an expression fails for the cause of its first part that
  fails;
* `Grammar.Expression.callsAccepted`: the grammar counts the arguments of calls.
-/

namespace Reckoner

/-! ### Checks of a node -/

/-- A checked result is itself, if it is finite. -/
theorem requireFinite_eq_ok_iff {operation : Operation} {x y : Binary64} :
    requireFinite operation x = .ok y ↔ x.isFinite ∧ x = y := by
  rw [requireFinite]
  cases x.isFinite <;> simp

/-- A checked result is refused if and only if it is not finite, and the error tells the operation
and the result. -/
theorem requireFinite_eq_error_iff {operation : Operation} {x : Binary64} {err : FormulaError} :
    requireFinite operation x = .error err ↔
      x.isFinite = false ∧ err = .domain (.notFinite operation x) := by
  rw [requireFinite]
  cases x.isFinite <;> simp [eq_comm]

namespace Function

/-- The number of arguments is checked against the arity. -/
theorem checkCount_eq_ok_iff {f : Function} {count : Nat} :
    f.checkCount count = .ok () ↔ f.arity.Accepts count := by
  rw [checkCount]
  by_cases h : f.arity.Accepts count <;> simp [h]

/-- A function **refuses** its arguments for a fault if it is not defined at them. -/
inductive Refuses : Function → List Binary64 → DomainFault → Prop
  | sqrt {x : Binary64} : x.lt (.zero false) → Refuses .sqrt [x] (.sqrtOfNegative x)
  | log {x : Binary64} : x.le (.zero false) → Refuses .log [x] (.logOfNonPositive x)

/-- A function that refuses its arguments fails with the fault that says why. -/
theorem Refuses.compute_eq {f : Function} {xs : List Binary64} {fault : DomainFault}
    (h : f.Refuses xs fault) : f.compute xs = .error (.domain fault) := by
  cases h with
  | sqrt hx => exact if_pos hx
  | log hx => exact if_pos hx

/-- Arguments of the right number are refused, or the function has a value there. -/
theorem exists_compute_or_refuses {f : Function} {xs : List Binary64}
    (h : f.arity.Accepts xs.length) :
    (∃ y, f.compute xs = .ok y) ∨ ∃ fault, f.Refuses xs fault := by
  cases f with
  | sqrt =>
    obtain ⟨x, rfl⟩ := List.length_eq_one_iff.1 h
    by_cases hx : x.lt (.zero false)
    · exact .inr ⟨_, .sqrt hx⟩
    · exact .inl ⟨_, if_neg hx⟩
  | log =>
    obtain ⟨x, rfl⟩ := List.length_eq_one_iff.1 h
    by_cases hx : x.le (.zero false)
    · exact .inr ⟨_, .log hx⟩
    · exact .inl ⟨_, if_neg hx⟩
  | pow =>
    obtain ⟨x, y, rfl⟩ := List.length_eq_two.1 h
    exact .inl ⟨_, rfl⟩
  | min | max => exact .inl ⟨_, rfl⟩
  | abs | round | floor | ceil | sin | cos | tan | exp =>
    obtain ⟨x, rfl⟩ := List.length_eq_one_iff.1 h
    exact .inl ⟨_, rfl⟩

/-- With a number of arguments that it accepts, a function is only computed. -/
theorem apply_of_accepts {f : Function} {xs : List Binary64} (h : f.arity.Accepts xs.length) :
    f.apply xs = f.compute xs := by
  rw [apply, checkCount_eq_ok_iff.2 h]
  rfl

/-- With a number of arguments that it accepts, a call is computed and its result checked. -/
theorem call_of_accepts {f : Function} {xs : List Binary64} (h : f.arity.Accepts xs.length) :
    f.call xs = f.compute xs >>= requireFinite (.call f xs) := by
  rw [call, apply_of_accepts h]

end Function

namespace Expr

/-! ### Causes -/

/-- The operands of a node have values, but the node has none, and this is the **cause**. -/
inductive Cause : Expr → DomainFault → Prop
  | literal {x : Binary64} : x.isFinite = false → Cause (literal x) (.notFinite .literal x)
  | binary {op : Operator} {l r : Expr} {x y : Binary64} : l.eval = .ok x → r.eval = .ok y →
      (op.compute x y).isFinite = false →
      Cause (binary op l r) (.notFinite (.binary op x y) (op.compute x y))
  | call {f : Function} {args : List Expr} {xs : List Binary64} {y : Binary64} :
      evalArgs args = .ok xs → f.compute xs = .ok y → y.isFinite = false →
      Cause (call f args) (.notFinite (.call f xs) y)
  | refused {f : Function} {args : List Expr} {xs : List Binary64} {fault : DomainFault} :
      evalArgs args = .ok xs → f.Refuses xs fault → Cause (call f args) fault

/-- All functions in an expression, at any depth, are called with numbers of arguments that they
accept. -/
def CallsAccepted (e : Expr) : Prop :=
  ∀ f args, (call f args).Within e → f.arity.Accepts args.length

/-- The calls of an expression are accepted if its own is and those of its operands are. -/
theorem callsAccepted_iff {e : Expr} : e.CallsAccepted ↔
    (∀ f args, e = call f args → f.arity.Accepts args.length) ∧
      ∀ s ∈ e.operands, s.CallsAccepted := by
  constructor
  · intro h
    refine ⟨fun f args he => h f args (within_iff.2 (.inl he.symm)), ?_⟩
    exact fun s hs f args hwithin => h f args (within_iff.2 (.inr ⟨s, hs, hwithin⟩))
  · rintro ⟨hnode, hoperands⟩ f args hwithin
    rcases within_iff.1 hwithin with he | ⟨s, hs, hwithin⟩
    · exact hnode f args he.symm
    · exact hoperands s hs f args hwithin

/-- A literal has no calls. -/
@[simp] theorem callsAccepted_literal (x : Binary64) : (literal x).CallsAccepted := by
  simp [callsAccepted_iff (e := literal x), operands]

/-- A constant has no calls. -/
@[simp] theorem callsAccepted_constant (c : Constant) : (constant c).CallsAccepted := by
  simp [callsAccepted_iff (e := constant c), operands]

/-- A sign has the calls of its operand. -/
@[simp] theorem callsAccepted_negate {e : Expr} :
    (negate e).CallsAccepted ↔ e.CallsAccepted := by
  simp [callsAccepted_iff (e := negate e), operands]

/-- An operator has the calls of both its operands. -/
@[simp] theorem callsAccepted_binary {op : Operator} {l r : Expr} :
    (binary op l r).CallsAccepted ↔ l.CallsAccepted ∧ r.CallsAccepted := by
  simp [callsAccepted_iff (e := binary op l r), operands]

/-- A call is accepted with its number of arguments, if all calls in them are. -/
@[simp] theorem callsAccepted_call {f : Function} {args : List Expr} :
    (call f args).CallsAccepted ↔
      f.arity.Accepts args.length ∧ ∀ e ∈ args, e.CallsAccepted := by
  simp [callsAccepted_iff (e := call f args), operands]

/-- There are as many values as arguments. -/
theorem length_of_evalArgs {args : List Expr} {xs : List Binary64} (h : evalArgs args = .ok xs) :
    xs.length = args.length := by
  induction args generalizing xs with
  | nil =>
    rw [evalArgs, Except.ok.injEq] at h
    rw [← h]
    rfl
  | cons e args ih =>
    rw [evalArgs_cons] at h
    obtain ⟨x, -, h⟩ := bind_eq_ok_iff.1 h
    obtain ⟨ys, hys, h⟩ := bind_eq_ok_iff.1 h
    rw [← Except.ok.inj h, List.length_cons, List.length_cons, ih hys]

/-- An expression with a cause fails, and with this fault. -/
theorem Cause.eval_eq {e : Expr} {fault : DomainFault} (hcounts : e.CallsAccepted)
    (h : Cause e fault) : e.eval = .error (.domain fault) := by
  cases h with
  | literal hx =>
    rw [eval_literal]
    exact requireFinite_eq_error_iff.2 ⟨hx, rfl⟩
  | binary hl hr hresult =>
    rw [eval_binary, hl, hr, ok_bind, ok_bind]
    exact requireFinite_eq_error_iff.2 ⟨hresult, rfl⟩
  | call hargs hcompute hresult =>
    rw [callsAccepted_call, ← length_of_evalArgs hargs] at hcounts
    rw [eval_call, hargs, ok_bind, Function.call_of_accepts hcounts.1, hcompute, ok_bind]
    exact requireFinite_eq_error_iff.2 ⟨hresult, rfl⟩
  | refused hargs hrefuses =>
    rw [callsAccepted_call, ← length_of_evalArgs hargs] at hcounts
    rw [eval_call, hargs, ok_bind, Function.call_of_accepts hcounts.1, hrefuses.compute_eq,
      error_bind]

/-- **Only numbers can make a node fail** where its calls are accepted and its operands have
values. -/
theorem exists_cause {e : Expr} {err : FormulaError} (hcounts : e.CallsAccepted)
    (hoperands : ∀ s ∈ e.operands, ∃ x, s.eval = .ok x) (h : e.eval = .error err) :
    ∃ fault, Cause e fault ∧ err = .domain fault := by
  cases e with
  | literal x =>
    rw [eval_literal] at h
    obtain ⟨hx, rfl⟩ := requireFinite_eq_error_iff.1 h
    exact ⟨_, .literal hx, rfl⟩
  | constant c =>
    rw [eval_constant] at h
    cases h
  | negate e =>
    obtain ⟨x, hx⟩ := hoperands e (by simp [operands])
    rw [eval_negate, hx] at h
    cases h
  | binary op l r =>
    obtain ⟨x, hx⟩ := hoperands l (by simp [operands])
    obtain ⟨y, hy⟩ := hoperands r (by simp [operands])
    rw [eval_binary, hx, hy, ok_bind, ok_bind] at h
    obtain ⟨hresult, rfl⟩ := requireFinite_eq_error_iff.1 h
    exact ⟨_, .binary hx hy hresult, rfl⟩
  | call f args =>
    obtain ⟨xs, hxs⟩ : ∃ xs, evalArgs args = .ok xs := exists_evalArgs_eq_ok_iff.2 hoperands
    rw [callsAccepted_call, ← length_of_evalArgs hxs] at hcounts
    rw [eval_call, hxs, ok_bind, Function.call_of_accepts hcounts.1] at h
    rcases Function.exists_compute_or_refuses hcounts.1 with ⟨y, hy⟩ | ⟨fault, hrefuses⟩
    · rw [hy, ok_bind] at h
      obtain ⟨hresult, rfl⟩ := requireFinite_eq_error_iff.1 h
      exact ⟨_, .call hxs hy hresult, rfl⟩
    · rw [hrefuses.compute_eq, error_bind] at h
      exact ⟨fault, .refused hxs hrefuses, (Except.error.inj h).symm⟩

/-- **An expression fails for the cause of its first part that fails** where its calls are accepted:
all parts before it have values, and only numbers can make it fail. -/
theorem CallsAccepted.eval_eq_error_iff {e : Expr} (hcounts : e.CallsAccepted)
    {err : FormulaError} : e.eval = .error err ↔
      ∃ before s after fault, e.postorder = before ++ s :: after ∧
        (∀ t ∈ before, ∃ x, t.eval = .ok x) ∧ Cause s fault ∧ err = .domain fault := by
  constructor
  · intro h
    induction e using operands_induction with
    | node e ih =>
      have hparts : ∀ {s : Expr}, (∃ x, s.eval = .ok x) → ∀ t ∈ s.postorder, ∃ x, t.eval = .ok x :=
        fun hs t ht => exists_eval_eq_ok_iff.1 hs t (mem_postorder_iff.1 ht)
      -- All operands have values and the node itself fails, or an operand is the first to fail.
      rcases operands_of_eval_eq_error h with hoperands | ⟨pre, s, post, hsplit, hs, hpre⟩
      · obtain ⟨fault, hcause, herr⟩ := exists_cause hcounts hoperands h
        refine ⟨_, e, [], fault, e.postorder_eq, fun t ht => ?_, hcause, herr⟩
        obtain ⟨s, hs, ht⟩ := List.mem_flatMap.1 ht
        exact hparts (hoperands s hs) t ht
      · have hmem : s ∈ e.operands := by simp [hsplit]
        obtain ⟨before, t, after, fault, horder, hbefore, hcause, herr⟩ :=
          ih s hmem ((callsAccepted_iff.1 hcounts).2 s hmem) hs
        refine ⟨pre.flatMap postorder ++ before, t, after ++ post.flatMap postorder ++ [e], fault,
          ?_, fun u hu => ?_, hcause, herr⟩
        · rw [postorder_eq, hsplit, List.flatMap_append, List.flatMap_cons, horder]
          simp
        · rcases List.mem_append.1 hu with hu | hu
          · obtain ⟨v, hv, hu⟩ := List.mem_flatMap.1 hu
            exact hparts (hpre v hv) u hu
          · exact hbefore u hu
  · rintro ⟨before, s, after, fault, horder, hbefore, hcause, rfl⟩
    have hwithin : s.Within e := mem_postorder_iff.1 (by simp [horder])
    have hs : s.CallsAccepted := fun f args hcall => hcounts f args (hcall.trans hwithin)
    exact Expr.eval_eq_error_iff.2 ⟨before, s, after, horder, hcause.eval_eq hs, hbefore⟩

end Expr

/-! ### The grammar counts arguments -/

namespace Grammar

mutual

/-- **The grammar counts the arguments of calls**, in every expression that is derived. -/
theorem Expression.callsAccepted {w : List Token} {e : Expr} {n : Nat} :
    Expression w e n → e.CallsAccepted
  | .term h => h.callsAccepted
  | .add hl hr | .sub hl hr => Expr.callsAccepted_binary.2 ⟨hl.callsAccepted, hr.callsAccepted⟩

/-- In a product, the calls of all factors have arguments as they accept them. -/
theorem Term.callsAccepted {w : List Token} {e : Expr} {n : Nat} : Term w e n → e.CallsAccepted
  | .unary h => h.callsAccepted
  | .mul hl hr | .div hl hr => Expr.callsAccepted_binary.2 ⟨hl.callsAccepted, hr.callsAccepted⟩

/-- A sign adds no call to those of its operand. -/
theorem Unary.callsAccepted {w : List Token} {e : Expr} {n : Nat} : Unary w e n → e.CallsAccepted
  | .negate h => Expr.callsAccepted_negate.2 h.callsAccepted
  | .plus h => h.callsAccepted
  | .power h => h.callsAccepted

/-- In a power, the calls of base and exponent have arguments as they accept them. -/
theorem Power.callsAccepted {w : List Token} {e : Expr} {n : Nat} : Power w e n → e.CallsAccepted
  | .primary h => h.callsAccepted
  | .pow hl hr => Expr.callsAccepted_binary.2 ⟨hl.callsAccepted, hr.callsAccepted⟩

/-- A call is derived only with a number of arguments that the function accepts. -/
theorem Primary.callsAccepted {w : List Token} {e : Expr} {n : Nat} :
    Primary w e n → e.CallsAccepted
  | .number x => Expr.callsAccepted_literal x
  | .constant _ => Expr.callsAccepted_constant _
  | .call _ hargs hcount => Expr.callsAccepted_call.2 ⟨hcount, hargs.callsAccepted⟩
  | .group h => h.callsAccepted

/-- The calls in the arguments of a call have arguments as they accept them. -/
theorem Arguments.callsAccepted {w : List Token} {es : List Expr} {n : Nat} :
    Arguments w es n → ∀ e ∈ es, e.CallsAccepted
  | .none => by simp
  | .some he hes => List.forall_mem_cons.2 ⟨he.callsAccepted, hes.callsAccepted⟩

/-- The calls in the arguments behind the first one have arguments as they accept them. -/
theorem Further.callsAccepted {w : List Token} {es : List Expr} {n : Nat} :
    Further w es n → ∀ e ∈ es, e.CallsAccepted
  | .none => by simp
  | .comma he hes => List.forall_mem_cons.2 ⟨he.callsAccepted, hes.callsAccepted⟩

end

end Grammar

end Reckoner
