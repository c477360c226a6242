import Mathlib
import Reckoner.Proofs.Evaluation.Finite

/-!
# Parts in Their Contexts

A context is an expression with a hole: the nodes on the way down to the hole, each with its
operands on either side. What a part contributes to the outcome of an expression is its own outcome
and no more, so that a part with a value may be replaced by this value. Where a part has none, the
operands to its left on the way down come before it, and nothing else does.

Main definitions:

* `Expr.Frame`, `Expr.Context`: a node with one operand left open, and a way down through such
  nodes;
* `Expr.Context.fill`: the expression in which a part stands in the hole;
* `Expr.Context.earlier`: what is evaluated before the hole.

Main results:

* `Expr.within_iff_exists_fill`: every part of an expression stands in a context;
* `Expr.Context.eval_fill_congr`: a context tells parts apart by their outcomes alone;
* `Expr.Context.eval_fill_eq_error`: the error of a part is that of the expression, if none comes
  before;
* `Expr.eval_referentially_transparent`: all of it.
-/

namespace Reckoner

namespace Expr

/-! ### Nodes with a hole -/

/-- A node with one operand left open. -/
inductive Frame where
  /-- A sign. -/
  | negate
  /-- An operator without its left operand. -/
  | left (op : Operator) (right : Expr)
  /-- An operator without its right operand. -/
  | right (op : Operator) (left : Expr)
  /-- A function without the argument that stands between `before` and `after`. -/
  | argument (function : Function) (before after : List Expr)

namespace Frame

/-- The node with its operand. -/
def fill : Frame → Expr → Expr
  | negate, s => .negate s
  | left op r, s => .binary op s r
  | right op l, s => .binary op l s
  | argument f before after, s => .call f (before ++ s :: after)

/-- The operands to the left of the hole. -/
def before : Frame → List Expr
  | negate => []
  | left _ _ => []
  | right _ l => [l]
  | argument _ before _ => before

/-- The operands to the right of the hole. -/
def after : Frame → List Expr
  | negate => []
  | left _ r => [r]
  | right _ _ => []
  | argument _ _ after => after

/-- The operands of a filled node are those on either side, and what it is filled with. -/
theorem operands_fill (frame : Frame) (s : Expr) :
    (frame.fill s).operands = frame.before ++ s :: frame.after := by
  cases frame <;> rfl

/-- Every operand fills a node that was left open for it. -/
theorem exists_fill_of_mem_operands {s e : Expr} (h : s ∈ e.operands) :
    ∃ frame : Frame, frame.fill s = e := by
  cases e with
  | literal x => cases h
  | constant c => cases h
  | negate e =>
    obtain rfl := List.mem_singleton.1 h
    exact ⟨negate, rfl⟩
  | binary op l r =>
    rcases List.mem_pair.1 h with rfl | rfl
    · exact ⟨left op r, rfl⟩
    · exact ⟨right op l, rfl⟩
  | call f args =>
    obtain ⟨before, after, hargs⟩ := List.append_of_mem h
    obtain rfl : args = before ++ s :: after := hargs
    exact ⟨argument f before after, rfl⟩

/-- Arguments have the same values if one of them is replaced by another of the same value. -/
theorem evalArgs_append_cons_congr {s s' : Expr} (h : s.eval = s'.eval) (before after : List Expr) :
    evalArgs (before ++ s :: after) = evalArgs (before ++ s' :: after) := by
  induction before with
  | nil => rw [List.nil_append, List.nil_append, evalArgs_cons, evalArgs_cons, h]
  | cons e before ih => rw [List.cons_append, List.cons_append, evalArgs_cons, evalArgs_cons, ih]

/-- A node tells operands apart by their outcomes alone. -/
theorem eval_fill_congr (frame : Frame) {s s' : Expr} (h : s.eval = s'.eval) :
    (frame.fill s).eval = (frame.fill s').eval := by
  cases frame with
  | negate => rw [fill, fill, eval_negate, eval_negate, h]
  | left op r => rw [fill, fill, eval_binary, eval_binary, h]
  | right op l => rw [fill, fill, eval_binary, eval_binary, h]
  | argument f before after =>
    rw [fill, fill, eval_call, eval_call, evalArgs_append_cons_congr h]

end Frame

/-! ### Ways down to a hole -/

/-- A **context**: the nodes on the way down to a hole, the outermost one first. -/
abbrev Context := List Frame

namespace Context

/-- The expression in which a part stands in the hole. -/
def fill (context : Context) (s : Expr) : Expr :=
  context.foldr Frame.fill s

/-- What is evaluated **before the hole**: the operands to its left on the way down, with all their
parts, in the order of evaluation. -/
def earlier (context : Context) : List Expr :=
  context.flatMap fun frame => frame.before.flatMap postorder

@[simp] theorem fill_nil (s : Expr) : fill [] s = s := rfl

@[simp] theorem fill_cons (frame : Frame) (context : Context) (s : Expr) :
    fill (frame :: context) s = frame.fill (context.fill s) := rfl

/-- The operands to the left at the outermost node are evaluated before all others. -/
@[simp] theorem earlier_cons (frame : Frame) (context : Context) :
    earlier (frame :: context) = frame.before.flatMap postorder ++ context.earlier := rfl

/-- **What is evaluated before the hole comes before all of the part that stands there**, and all
else comes behind it. -/
theorem exists_postorder_fill (context : Context) (s : Expr) :
    ∃ later, (context.fill s).postorder = context.earlier ++ s.postorder ++ later := by
  induction context with
  | nil => exact ⟨[], (List.append_nil _).symm⟩
  | cons frame context ih =>
    obtain ⟨later, hlater⟩ := ih
    refine ⟨later ++ frame.after.flatMap postorder ++ [fill (frame :: context) s], ?_⟩
    rw [postorder_eq, fill_cons, Frame.operands_fill, List.flatMap_append, List.flatMap_cons,
      hlater,
      earlier_cons]
    simp only [List.append_assoc]

/-- **A context tells parts apart by their outcomes alone.** -/
theorem eval_fill_congr (context : Context) {s s' : Expr} (h : s.eval = s'.eval) :
    (context.fill s).eval = (context.fill s').eval := by
  induction context with
  | nil => exact h
  | cons frame context ih => exact frame.eval_fill_congr ih

/-- **The error of a part is that of the expression**, if all that comes before it has a value. -/
theorem eval_fill_eq_error (context : Context) {s : Expr} {err : FormulaError}
    (hearlier : ∀ t ∈ context.earlier, ∃ x, t.eval = .ok x) (h : s.eval = .error err) :
    (context.fill s).eval = .error err := by
  obtain ⟨before, t, after, hs, ht, hbefore⟩ := eval_eq_error_iff.1 h
  obtain ⟨later, hlater⟩ := context.exists_postorder_fill s
  refine eval_eq_error_iff.2 ⟨context.earlier ++ before, t, after ++ later, ?_, ht, fun u hu => ?_⟩
  · rw [hlater, hs]
    simp only [List.append_assoc, List.cons_append]
  · rcases List.mem_append.1 hu with hu | hu
    · exact hearlier u hu
    · exact hbefore u hu

/-- **What fails before a part is the error**, whatever the part is. -/
theorem eval_fill_eq_error_of_earlier (context : Context) (s : Expr) {before after : List Expr}
    {t : Expr}
    {err : FormulaError} (hearlier : context.earlier = before ++ t :: after)
    (hbefore : ∀ u ∈ before, ∃ x, u.eval = .ok x) (h : t.eval = .error err) :
    (context.fill s).eval = .error err := by
  obtain ⟨later, hlater⟩ := context.exists_postorder_fill s
  refine eval_eq_error_iff.2 ⟨before, t, after ++ s.postorder ++ later, ?_, h, hbefore⟩
  rw [hlater, hearlier]
  simp only [List.append_assoc, List.cons_append]

end Context

/-- **Every part of an expression stands in a context**, and what stands in a context is a part. -/
theorem within_iff_exists_fill {s e : Expr} :
    s.Within e ↔ ∃ context : Context, context.fill s = e := by
  constructor
  · intro h
    -- The way down is gone through from the part up.
    induction h with
    | refl => exact ⟨[], rfl⟩
    | tail _ hmem ih =>
      obtain ⟨context, rfl⟩ := ih
      obtain ⟨frame, hframe⟩ := Frame.exists_fill_of_mem_operands hmem
      exact ⟨frame :: context, hframe⟩
  · rintro ⟨context, rfl⟩
    induction context with
    | nil => exact .refl
    | cons frame context ih =>
      refine ih.tail ?_
      rw [Context.fill_cons, Frame.operands_fill]
      simp

/-- The literal of a value has this value. -/
theorem eval_literal_of_eval {s : Expr} {x : Binary64} (h : s.eval = .ok x) :
    (literal x).eval = .ok x := by
  rw [eval_literal, requireFinite, if_pos (isFinite_of_eval h)]

/-- **Evaluation is referentially transparent.** The parts of an expression are what stands in its
contexts. A part with a value may be replaced by this value in every context: the outcome is the
same, value or error. What is evaluated before the hole does not depend on the part, and the order
of evaluation has it in front of the part. Where a part has no value, its error is that of the
expression, unless something before the part fails, and then the error is that of what fails first
there. -/
theorem eval_referentially_transparent :
    (∀ s e : Expr, s.Within e ↔ ∃ context : Context, context.fill s = e) ∧
    (∀ (context : Context) (s : Expr) (x : Binary64), s.eval = .ok x →
      (context.fill s).eval = (context.fill (literal x)).eval) ∧
    (∀ (context : Context) (s : Expr),
      ∃ later, (context.fill s).postorder = context.earlier ++ s.postorder ++ later) ∧
    ∀ (context : Context) (s : Expr) (err : FormulaError), s.eval = .error err →
      ((∀ t ∈ context.earlier, ∃ x, t.eval = .ok x) ∧ (context.fill s).eval = .error err) ∨
        ∃ before t after err', context.earlier = before ++ t :: after ∧
          (∀ u ∈ before, ∃ x, u.eval = .ok x) ∧ t.eval = .error err' ∧
          (context.fill s).eval = .error err' := by
  refine ⟨fun _ _ => within_iff_exists_fill, fun context s x h => ?_,
    Context.exists_postorder_fill, fun context s err h => ?_⟩
  · exact context.eval_fill_congr (h.trans (eval_literal_of_eval h).symm)
  · -- The first failure among what is evaluated earlier decides, if there is one.
    cases hfind : context.earlier.findSome? fun t => failure? t.eval with
    | none =>
      rw [List.findSome?_eq_none_iff] at hfind
      have hearlier : ∀ t ∈ context.earlier, ∃ x, t.eval = .ok x :=
        fun t ht => failure?_eq_none_iff.1 (hfind t ht)
      exact .inl ⟨hearlier, context.eval_fill_eq_error hearlier h⟩
    | some err' =>
      obtain ⟨before, t, after, hsplit, ht, hbefore⟩ := List.findSome?_eq_some_iff.1 hfind
      have hvalues : ∀ u ∈ before, ∃ x, u.eval = .ok x :=
        fun u hu => failure?_eq_none_iff.1 (hbefore u hu)
      have hfails := failure?_eq_some_iff.1 ht
      exact .inr ⟨before, t, after, err', hsplit, hvalues, hfails,
        context.eval_fill_eq_error_of_earlier s hsplit hvalues hfails⟩

/-- A part of the value `-e` in a chain, and a quotient that is infinite next to the root of a
negative number, which fails first. -/
theorem eval_referentially_transparent_chain :
    ((negate (constant .e)).eval = .ok (Constant.value .e).neg ∧
      (binary .mul (binary .sub (constant .pi) (negate (constant .e))) (constant .e)).eval =
        (binary .mul (binary .sub (constant .pi) (literal (Constant.value .e).neg))
          (constant .e)).eval) ∧
    (binary .div (constant .pi) (literal (.zero false))).eval = .error (.domain
      (.notFinite (.binary .div (Constant.value .pi) (.zero false)) (.inf false))) ∧
    (call .max [call .sqrt [negate (constant .e)],
        binary .div (constant .pi) (literal (.zero false))]).eval =
      .error (.domain (.sqrtOfNegative (Constant.value .e).neg)) := by
  have hnegate : (negate (constant .e)).eval = .ok (Constant.value .e).neg := by
    rw [eval_negate, eval_constant, ok_bind]
  have hsqrt : (call .sqrt [negate (constant .e)]).eval =
      .error (.domain (.sqrtOfNegative (Constant.value .e).neg)) := by
    decide +kernel
  have hquotient : (binary .div (constant .pi) (literal (.zero false))).eval = .error (.domain
      (.notFinite (.binary .div (Constant.value .pi) (.zero false)) (.inf false))) := by
    decide +kernel
  obtain ⟨-, hreplace, -, herrors⟩ := eval_referentially_transparent
  refine ⟨⟨hnegate, hreplace [.left .mul (constant .e), .right .sub (constant .pi)] _ _ hnegate⟩,
    hquotient, ?_⟩
  have hearlier : Context.earlier [.argument .max [call .sqrt [negate (constant .e)]] []] =
      [constant .e, negate (constant .e), call .sqrt [negate (constant .e)]] := by
    simp [Context.earlier, Frame.before, postorder, postorderArgs]
  rcases herrors [.argument .max [call .sqrt [negate (constant .e)]] []] _ _ hquotient with
    ⟨hvalues, -⟩ | ⟨before, t, after, err', hsplit, -, ht, hfails⟩
  · obtain ⟨x, hx⟩ := hvalues (call .sqrt [negate (constant .e)]) (by simp [hearlier])
    rw [hsqrt] at hx
    cases hx
  · have hmem : t ∈ [constant .e, negate (constant .e), call .sqrt [negate (constant .e)]] := by
      rw [← hearlier, hsplit]
      simp
    simp only [List.mem_cons, List.not_mem_nil, or_false] at hmem
    rcases hmem with rfl | rfl | rfl
    · rw [eval_constant] at ht
      cases ht
    · rw [hnegate] at ht
      cases ht
    · rw [hsqrt] at ht
      rw [Except.error.inj ht]
      exact hfails

end Expr

end Reckoner
