import Mathlib
import Reckoner.Proofs.Evaluation.Causes

/-!
# Functions That Never Fail

A function whose value at finite arguments is finite adds no failure of its own to an evaluation: a
call of it fails as its first argument that fails, or because it is given a wrong number of
arguments.

Main definition: `Function.IsTotal`, a function has a finite value at all finite arguments.

Main result: `Expr.eval_call_eq_error_iff`, why a call of such a function fails.
-/

namespace Reckoner

/-- A function is **total** if its value at finite arguments, of a number that it accepts, is
finite. -/
def Function.IsTotal (f : Function) : Prop :=
  ∀ xs : List Binary64, f.arity.Accepts xs.length → (∀ x ∈ xs, x.isFinite) →
    ∃ y, f.compute xs = .ok y ∧ y.isFinite

namespace Function

/-- With another number of arguments, a function is refused before it is computed. -/
theorem call_of_not_accepts {f : Function} {xs : List Binary64} (h : ¬f.arity.Accepts xs.length) :
    f.call xs = .error (.grammar (.argumentCount f xs.length)) := by
  rw [call, apply, checkCount, if_neg h]
  rfl

/-- A call of a total function at finite arguments has a value, or their number is wrong. -/
theorem IsTotal.call_eq_error_iff {f : Function} (hf : f.IsTotal) {xs : List Binary64}
    (hfinite : ∀ x ∈ xs, x.isFinite) {err : FormulaError} : f.call xs = .error err ↔
      ¬f.arity.Accepts xs.length ∧ err = .grammar (.argumentCount f xs.length) := by
  by_cases haccepts : f.arity.Accepts xs.length
  · obtain ⟨y, hy, hyfinite⟩ := hf xs haccepts hfinite
    rw [call_of_accepts haccepts, hy, ok_bind, requireFinite_eq_error_iff]
    simp [haccepts, hyfinite]
  · rw [call_of_not_accepts haccepts]
    simp [haccepts, eq_comm]

end Function

namespace Expr

/-- The values of arguments are finite. -/
theorem isFinite_of_evalArgs {args : List Expr} {xs : List Binary64} (h : evalArgs args = .ok xs) :
    ∀ x ∈ xs, x.isFinite := by
  induction args generalizing xs with
  | nil =>
    rw [evalArgs, Except.ok.injEq] at h
    simp [← h]
  | cons e args ih =>
    rw [evalArgs_cons] at h
    obtain ⟨x, hx, h⟩ := bind_eq_ok_iff.1 h
    obtain ⟨ys, hys, h⟩ := bind_eq_ok_iff.1 h
    rw [← Except.ok.inj h, List.forall_mem_cons]
    exact ⟨isFinite_of_eval hx, ih hys⟩

/-- **A call of a total function fails only through its arguments**: the first of them that fails,
or their number. -/
theorem eval_call_eq_error_iff {f : Function} (hf : f.IsTotal) {args : List Expr}
    {err : FormulaError} : (call f args).eval = .error err ↔
      (∃ before e after, args = before ++ e :: after ∧ e.eval = .error err ∧
        ∀ t ∈ before, ∃ x, t.eval = .ok x) ∨
      ((∀ e ∈ args, ∃ x, e.eval = .ok x) ∧ ¬f.arity.Accepts args.length ∧
        err = .grammar (.argumentCount f args.length)) := by
  rw [eval_call, bind_eq_error_iff, evalArgs_eq_error_iff, ← exists_evalArgs_eq_ok_iff]
  refine or_congr_right ?_
  constructor
  · rintro ⟨xs, hxs, h⟩
    rw [hf.call_eq_error_iff (isFinite_of_evalArgs hxs), length_of_evalArgs hxs] at h
    exact ⟨⟨xs, hxs⟩, h⟩
  · rintro ⟨⟨xs, hxs⟩, h⟩
    refine ⟨xs, hxs, ?_⟩
    rwa [hf.call_eq_error_iff (isFinite_of_evalArgs hxs), length_of_evalArgs hxs]

end Expr

end Reckoner
