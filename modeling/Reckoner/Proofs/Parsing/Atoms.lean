import Mathlib
import Reckoner.Proofs.Evaluation.Causes
import Reckoner.Proofs.Parsing.Exact

/-!
# Numbers Written Out

A number among tokens, written out as a numeral in parentheses with a minus sign in front if the
number is negative, is one operand still: no operator beside it reaches into the parentheses. So
tokens stay an expression of the grammar, which nests at most two levels deeper, a group and a sign,
and the expression they build has the same value.

Main definitions:

* `atomTokens`: the tokens of a number that is written out;
* `Expands`: tokens with some numbers written out;
* `Expr.Preserves`: an expression has the value of another one, where this one has a value.

Main results:

* `Grammar.Expression.expand`: with numbers written out, tokens build an expression of the same
  value;
* `Expr.exists_parse_of_expands`: so they are parsed within two more levels.
-/

namespace Reckoner

/-! ### Tokens -/

/-- The tokens of a number that is written out: its absolute value in parentheses, with a minus sign
in front if the number is negative. -/
def atomTokens (x : Binary64) : List Token :=
  if x.isNegative then [.openParen, .operator .sub, .number x.abs, .closeParen]
  else [.openParen, .number x.abs, .closeParen]

/-- The second tokens are the first ones with some numbers **written out**. -/
inductive Expands : List Token → List Token → Prop
  | nil : Expands [] []
  | keep (t : Token) {ts us : List Token} : Expands ts us → Expands (t :: ts) (t :: us)
  | atom (x : Binary64) {ts us : List Token} : Expands ts us →
      Expands (.number x :: ts) (atomTokens x ++ us)

namespace Expands

variable {t : Token} {ts ts' us : List Token}

theorem eq_nil (h : Expands [] us) : us = [] := by
  cases h
  rfl

/-- Tokens other than numbers are kept. -/
theorem cons_inv (h : Expands (t :: ts) us) (ht : ∀ x, t ≠ .number x) :
    ∃ us', us = t :: us' ∧ Expands ts us' := by
  cases h with
  | keep _ h => exact ⟨_, rfl, h⟩
  | atom x _ => exact absurd rfl (ht x)

/-- The parts of tokens are written out one after the other. -/
theorem append_inv (h : Expands (ts ++ ts') us) :
    ∃ vs ws, us = vs ++ ws ∧ Expands ts vs ∧ Expands ts' ws := by
  induction ts generalizing us with
  | nil => exact ⟨[], us, rfl, .nil, h⟩
  | cons t ts ih =>
    rw [List.cons_append] at h
    cases h with
    | keep _ h =>
      obtain ⟨vs, ws, rfl, hvs, hws⟩ := ih h
      exact ⟨t :: vs, ws, rfl, .keep t hvs, hws⟩
    | atom x h =>
      obtain ⟨vs, ws, rfl, hvs, hws⟩ := ih h
      exact ⟨atomTokens x ++ vs, ws, (List.append_assoc _ _ _).symm, .atom x hvs, hws⟩

/-- A part on each side of a token other than a number. -/
theorem append_cons_inv (h : Expands (ts ++ t :: ts') us) (ht : ∀ x, t ≠ .number x) :
    ∃ vs ws, us = vs ++ t :: ws ∧ Expands ts vs ∧ Expands ts' ws := by
  obtain ⟨vs, ws, rfl, hvs, hws⟩ := h.append_inv
  obtain ⟨ws', rfl, hws'⟩ := hws.cons_inv ht
  exact ⟨vs, ws', rfl, hvs, hws'⟩

/-- A number that is written out has neither a placeholder nor the end of the formula in it. -/
theorem of_mem_atomTokens {x : Binary64} (h : t ∈ atomTokens x) :
    t ≠ .eof ∧ ∀ name, t ≠ .placeholder name := by
  rw [atomTokens] at h
  split_ifs at h <;> simp at h <;> rcases h with rfl | rfl | rfl | rfl <;> simp

/-- Where numbers are written out, no placeholder comes in. -/
theorem placeholder_notMem (h : Expands ts us) {name : String} (hts : .placeholder name ∉ ts) :
    .placeholder name ∉ us := by
  induction h with
  | nil => exact hts
  | keep t _ ih =>
    rw [List.mem_cons, not_or] at hts ⊢
    exact ⟨hts.1, ih hts.2⟩
  | atom x _ ih =>
    rw [List.mem_append, not_or]
    exact ⟨fun hmem => (of_mem_atomTokens hmem).2 name rfl, ih (List.not_mem_of_not_mem_cons hts)⟩

/-- The tokens before the end of the formula are written out by themselves. -/
theorem takeWhile_ne_eof (h : Expands ts us) :
    Expands (ts.takeWhile (· ≠ .eof)) (us.takeWhile (· ≠ .eof)) := by
  induction h with
  | nil => exact .nil
  | keep t _ ih =>
    by_cases ht : t = .eof
    · simpa [ht] using Expands.nil
    · simpa [ht] using Expands.keep t ih
  | atom x _ ih =>
    have hatom : ∀ t ∈ atomTokens x, decide (t ≠ .eof) := fun t ht => by
      simpa using (of_mem_atomTokens ht).1
    rw [List.takeWhile_append_of_pos hatom]
    simpa using Expands.atom x ih

end Expands

/-! ### Values -/

namespace Expr

/-- The second expression has the value of the first one where this one has a value. -/
def Preserves (e e' : Expr) : Prop :=
  ∀ x, e.eval = .ok x → e'.eval = .ok x

/-- An expression keeps its own value. -/
theorem Preserves.refl (e : Expr) : e.Preserves e :=
  fun _ h => h

/-- A sign in front of what keeps a value keeps the value. -/
theorem Preserves.negate {e e' : Expr} (h : e.Preserves e') :
    (negate e).Preserves (negate e') := by
  intro x hx
  rw [eval_negate] at hx ⊢
  obtain ⟨y, hy, hx⟩ := bind_eq_ok_iff.1 hx
  rw [h y hy, ok_bind, hx]

/-- Operands that keep their values keep that of an operator. -/
theorem Preserves.binary {op : Operator} {l l' r r' : Expr} (hl : l.Preserves l')
    (hr : r.Preserves r') : (binary op l r).Preserves (binary op l' r') := by
  intro x hx
  rw [eval_binary] at hx ⊢
  obtain ⟨y, hy, hx⟩ := bind_eq_ok_iff.1 hx
  obtain ⟨z, hz, hx⟩ := bind_eq_ok_iff.1 hx
  rw [hl y hy, ok_bind, hr z hz, ok_bind, hx]

/-- Arguments that keep their values keep them all. -/
theorem evalArgs_of_preserves {es es' : List Expr} (h : List.Forall₂ Preserves es es')
    {xs : List Binary64} (hxs : evalArgs es = .ok xs) : evalArgs es' = .ok xs := by
  induction h generalizing xs with
  | nil => exact hxs
  | cons he _ ih =>
    rw [evalArgs_cons] at hxs ⊢
    obtain ⟨y, hy, hxs⟩ := bind_eq_ok_iff.1 hxs
    obtain ⟨ys, hys, hxs⟩ := bind_eq_ok_iff.1 hxs
    rw [he y hy, ok_bind, ih hys, ok_bind, hxs]

/-- Arguments that keep their values keep that of a call. -/
theorem Preserves.call {f : Function} {es es' : List Expr} (h : List.Forall₂ Preserves es es') :
    (call f es).Preserves (call f es') := by
  intro x hx
  rw [eval_call] at hx ⊢
  obtain ⟨xs, hxs, hx⟩ := bind_eq_ok_iff.1 hx
  rw [evalArgs_of_preserves h hxs, ok_bind, hx]

end Expr

/-! ### Numbers -/

/-- A number without a sign is its own absolute value. -/
theorem Expr.preserves_literal_abs {x : Binary64} (hsign : x.isNegative = false) :
    (literal x).Preserves (literal x.abs) := by
  intro y hy
  rw [eval_literal, requireFinite_eq_ok_iff] at hy ⊢
  rwa [Binary64.isFinite_abs, Binary64.abs_of_isNegative hy.1 hsign]

/-- A number with a sign is its absolute value with a minus sign in front, also for minus zero. -/
theorem Expr.preserves_negate_abs {x : Binary64} (hsign : x.isNegative = true) :
    (literal x).Preserves (negate (literal x.abs)) := by
  intro y hy
  rw [eval_literal, requireFinite_eq_ok_iff] at hy
  have habs : requireFinite .literal x.abs = .ok x.abs :=
    requireFinite_eq_ok_iff.2 ⟨x.isFinite_abs.trans hy.1, rfl⟩
  rw [eval_negate, eval_literal, habs, ok_bind, Binary64.neg_abs_of_isNegative hsign, hy.2]

/-! ### Phrases -/

namespace Grammar

/-- A phrase of the grammar can be **expanded**: with numbers written out its tokens are a phrase of
the same kind, which nests at most two levels deeper and builds an expression of the same value. -/
def Expandable (phrase : List Token → Expr → Nat → Prop) (w : List Token) (e : Expr) (n : Nat) :
    Prop :=
  ∀ ⦃u : List Token⦄, Expands w u → ∃ e' n', phrase u e' n' ∧ n' ≤ n + 2 ∧ e.Preserves e'

/-- The same for arguments. -/
def ExpandableArgs (phrase : List Token → List Expr → Nat → Prop) (w : List Token)
    (es : List Expr) (n : Nat) : Prop :=
  ∀ ⦃u : List Token⦄, Expands w u →
    ∃ es' n', phrase u es' n' ∧ n' ≤ n + 2 ∧ List.Forall₂ Expr.Preserves es es'

section

variable {P Q R : List Token → Expr → Nat → Prop} {v w : List Token} {e l r : Expr} {m n : Nat}

/-- A phrase that is one of another kind. -/
theorem Expandable.imp (h : Expandable P w e n)
    (mk : ∀ {u e' n'}, P u e' n' → Q u e' n') : Expandable Q w e n := by
  intro u hu
  obtain ⟨e', n', he', hn', hpreserves⟩ := h hu
  exact ⟨e', n', mk he', hn', hpreserves⟩

/-- An operator between two phrases, of which the second one may nest deeper. -/
theorem Expandable.binary {op : Operator} {k : Nat} (hl : Expandable P v l m)
    (hr : Expandable Q w r n) (mk : ∀ {v' w' l' r' m' n'}, P v' l' m' → Q w' r' n' →
      R (v' ++ .operator op :: w') (.binary op l' r') (max m' (n' + k))) :
    Expandable R (v ++ .operator op :: w) (.binary op l r) (max m (n + k)) := by
  intro u hu
  obtain ⟨vs, ws, rfl, hvs, hws⟩ := hu.append_cons_inv (by simp)
  obtain ⟨l', m', hl', hm', hlv⟩ := hl hvs
  obtain ⟨r', n', hr', hn', hrv⟩ := hr hws
  exact ⟨_, _, mk hl' hr', by omega, hlv.binary hrv⟩

/-- A number that is written out is a group. -/
theorem expandable_number (x : Binary64) : Expandable Primary [.number x] (.literal x) 0 := by
  intro u hu
  cases hu with
  | keep _ hnil =>
    obtain rfl := hnil.eq_nil
    exact ⟨_, 0, .number x, by omega, .refl _⟩
  | atom _ hnil =>
    obtain rfl := hnil.eq_nil
    have habs : Unary [.number x.abs] (.literal x.abs) 0 := .power (.primary (.number _))
    rw [atomTokens, List.append_nil]
    cases hsign : x.isNegative with
    | true =>
      exact ⟨_, 2, .group (.term (.unary (.negate habs))), by omega,
        Expr.preserves_negate_abs hsign⟩
    | false =>
      exact ⟨_, 1, .group (.term (.unary habs)), by omega, Expr.preserves_literal_abs hsign⟩

/-- The tokens of a phrase between parentheses. -/
theorem exists_expands_parens {u : List Token}
    (h : Expands (.openParen :: (w ++ [.closeParen])) u) :
    ∃ ws, u = .openParen :: (ws ++ [.closeParen]) ∧ Expands w ws := by
  obtain ⟨u, rfl, hu⟩ := h.cons_inv (by simp)
  obtain ⟨ws, us, rfl, hws, hus⟩ := hu.append_cons_inv (by simp)
  obtain rfl := hus.eq_nil
  exact ⟨ws, rfl, hws⟩

end

mutual

/-- **With numbers written out, tokens build an expression of the same value.** -/
theorem Expression.expand {w : List Token} {e : Expr} {n : Nat} :
    Expression w e n → Expandable Expression w e n
  | .term h => h.expand.imp .term
  | .add hl hr => hl.expand.binary (k := 0) hr.expand .add
  | .sub hl hr => hl.expand.binary (k := 0) hr.expand .sub

/-- With numbers written out, the tokens of a product build a product of the same value. -/
theorem Term.expand {w : List Token} {e : Expr} {n : Nat} : Term w e n → Expandable Term w e n
  | .unary h => h.expand.imp .unary
  | .mul hl hr => hl.expand.binary (k := 0) hr.expand .mul
  | .div hl hr => hl.expand.binary (k := 0) hr.expand .div

/-- With numbers written out, signs stay in front of an operand of the same value. -/
theorem Unary.expand {w : List Token} {e : Expr} {n : Nat} : Unary w e n → Expandable Unary w e n
  | .negate h => by
    intro u hu
    obtain ⟨us, rfl, hus⟩ := hu.cons_inv (by simp)
    obtain ⟨e', n', he', hn', hpreserves⟩ := h.expand hus
    exact ⟨_, _, .negate he', by omega, hpreserves.negate⟩
  | .plus h => by
    intro u hu
    obtain ⟨us, rfl, hus⟩ := hu.cons_inv (by simp)
    obtain ⟨e', n', he', hn', hpreserves⟩ := h.expand hus
    exact ⟨_, _, .plus he', by omega, hpreserves⟩
  | .power h => h.expand.imp .power

/-- With numbers written out, the tokens of a power build a power of the same value: a base in
parentheses is still a base. -/
theorem Power.expand {w : List Token} {e : Expr} {n : Nat} : Power w e n → Expandable Power w e n
  | .primary h => h.expand.imp .primary
  | .pow hl hr => hl.expand.binary (k := 1) hr.expand .pow

/-- With numbers written out, the tokens of a primary build a primary of the same value. -/
theorem Primary.expand {w : List Token} {e : Expr} {n : Nat} :
    Primary w e n → Expandable Primary w e n
  | .number x => expandable_number x
  | .constant hc => by
    intro u hu
    obtain ⟨us, rfl, hus⟩ := hu.cons_inv (by simp)
    obtain rfl := hus.eq_nil
    exact ⟨_, _, .constant hc, by omega, .refl _⟩
  | .call hf hargs hcount => by
    intro u hu
    obtain ⟨us, rfl, hus⟩ := hu.cons_inv (by simp)
    obtain ⟨ws, rfl, hws⟩ := exists_expands_parens hus
    obtain ⟨es', n', hargs', hn', hpreserves⟩ := hargs.expand hws
    rw [hpreserves.length_eq] at hcount
    exact ⟨_, _, .call hf hargs' hcount, hn', .call hpreserves⟩
  | .group h => by
    intro u hu
    obtain ⟨ws, rfl, hws⟩ := exists_expands_parens hu
    obtain ⟨e', n', he', hn', hpreserves⟩ := h.expand hws
    exact ⟨_, _, .group he', by omega, hpreserves⟩

/-- With numbers written out, arguments build as many arguments of the same values. -/
theorem Arguments.expand {w : List Token} {es : List Expr} {n : Nat} :
    Arguments w es n → ExpandableArgs Arguments w es n
  | .none => by
    intro u hu
    obtain rfl := hu.eq_nil
    exact ⟨_, _, .none, by omega, .nil⟩
  | .some he hes => by
    intro u hu
    obtain ⟨vs, ws, rfl, hvs, hws⟩ := hu.append_inv
    obtain ⟨e', m', he', hm', hpreserves⟩ := he.expand hvs
    obtain ⟨es', n', hes', hn', hall⟩ := hes.expand hws
    exact ⟨_, _, .some he' hes', by omega, .cons hpreserves hall⟩

/-- With numbers written out, the arguments behind the first one keep their values. -/
theorem Further.expand {w : List Token} {es : List Expr} {n : Nat} :
    Further w es n → ExpandableArgs Further w es n
  | .none => by
    intro u hu
    obtain rfl := hu.eq_nil
    exact ⟨_, _, .none, by omega, .nil⟩
  | .comma he hes => by
    intro u hu
    obtain ⟨us, rfl, hus⟩ := hu.cons_inv (by simp)
    obtain ⟨vs, ws, rfl, hvs, hws⟩ := hus.append_inv
    obtain ⟨e', m', he', hm', hpreserves⟩ := he.expand hvs
    obtain ⟨es', n', hes', hn', hall⟩ := hes.expand hws
    exact ⟨_, _, .comma he' hes', by omega, .cons hpreserves hall⟩

end

end Grammar

/-- **With numbers written out, tokens are parsed within two more levels**, to an expression of the
same value. -/
theorem Expr.exists_parse_of_expands {d d' : Nat} {ts us : List Spelled} {e : Expr}
    (h : Expr.parse d ts = .ok e) (hus : Expands (ts.map Spelled.token) (us.map Spelled.token))
    (hd : d + 2 ≤ d') : ∃ e', Expr.parse d' us = .ok e' ∧ e.Preserves e' := by
  obtain ⟨n, hn, he⟩ := Expr.parse_eq_ok_iff.1 h
  rw [Expr.map_token_body] at he
  obtain ⟨e', n', he', hn', hpreserves⟩ := he.expand hus.takeWhile_ne_eof
  refine ⟨e', Expr.parse_eq_ok_iff.2 ⟨n', by omega, ?_⟩, hpreserves⟩
  rwa [Expr.map_token_body]

end Reckoner
