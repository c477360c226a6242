import Mathlib
import Reckoner.Proofs.Parsing.Grammar
import Reckoner.Proofs.Parsing.Plain

/-!
# What Is in the Grammar Is Read

Each phrase of the grammar is **taken** by its reader off the front of any tokens that do not go on
with it: the reader builds the expression of the phrase and leaves what follows. One token decides
whether a phrase goes on, by how strongly it binds the operand before it.

A chain leans to the left in the grammar but is read from the left, so a sum or a product is not
taken as a whole: reading it in front of anything comes to going on with the chain so far.

Main definitions:

* `Reader.strength` — how strongly a token binds the operand before it;
* `Reader.Stops` — what follows a phrase binds it less strongly than a level;
* `Reader.Takes`, `Reader.Extends` — the reader of a phrase, and of a chain, in front of what stops
  it.

Main result: `Reader.expression_takes`, expressions are taken by their reader if they nest no deeper
than it may.
-/

namespace Reckoner

namespace Reader

open Grammar

/-! ### What may follow a phrase -/

/-- How strongly a token binds the operand before it: not at all, as the sign of a sum, as that of a
product, as that of a power, or as the parenthesis of a call. -/
def strength : Token → Nat
  | .operator .add | .operator .sub => 1
  | .operator .mul | .operator .div => 2
  | .operator .pow => 3
  | .openParen => 4
  | _ => 0

/-- What follows a phrase **stops** it at a level if it is nothing, or goes on with a token that
binds less strongly. -/
def Stops (level : Nat) : List Spelled → Prop
  | [] => True
  | t :: _ => strength t.token < level

/-- What stops a phrase at a level stops it at each higher level. -/
theorem Stops.mono {k level : Nat} (hle : k ≤ level) {ts : List Spelled} (h : Stops k ts) :
    Stops level ts := by
  cases ts with
  | nil => trivial
  | cons t ts => exact Nat.lt_of_lt_of_le h hle

/-- A token that binds less strongly than a sign of a product is none. -/
theorem productOperator?_of_strength {t : Token} (h : strength t < 2) :
    productOperator? t = none := by
  rw [Option.eq_none_iff_forall_ne_some]
  intro op hop
  rcases productOperator?_eq_some_iff.1 hop with ⟨rfl, -⟩ | ⟨rfl, -⟩
  · simp [strength] at h
  · simp [strength] at h

/-- A token that binds less strongly than a sign of a sum is none. -/
theorem sumOperator?_of_strength {t : Token} (h : strength t < 1) : sumOperator? t = none := by
  rw [Option.eq_none_iff_forall_ne_some]
  intro op hop
  rcases sumOperator?_eq_some_iff.1 hop with ⟨rfl, -⟩ | ⟨rfl, -⟩
  · simp [strength] at h
  · simp [strength] at h

/-- The reader **takes** the tokens `us` in front of whatever stops them, and builds `e`. -/
def Takes (reader : Reader Expr) (level : Nat) (us : List Spelled) (e : Expr) : Prop :=
  ∀ rest, Stops level rest → plain (reader (us ++ rest)) = .ok (e, rest)

/-- In front of whatever stops an item, a chain that opens with the tokens `us` **extends** the
chain `e` that these are. -/
def Extends (operator? : Token → Option Operator) (item : Reader Expr) (level : Nat)
    (us : List Spelled) (e : Expr) : Prop :=
  ∀ rest, Stops level rest →
    plain (chain operator? item (us ++ rest)) = plain (chainFrom operator? item e rest)

/-! ### Chains -/

section Chains

variable {operator? : Token → Option Operator} {item : Reader Expr} {level : Nat}
  {us vs : List Spelled} {l r e : Expr}

/-- An item that is taken is the beginning of a chain. -/
theorem Takes.chain (h : Takes item level us e) : Extends operator? item level us e := by
  intro rest hstop
  rw [plain_chain, h rest hstop, ok_bind]

/-- An operator that stops an item, and one more item, make a longer chain. -/
theorem Extends.step (hl : Extends operator? item level us l) {t : Spelled} {op : Operator}
    (hop : operator? t.token = some op) (ht : strength t.token < level)
    (hr : Takes item level vs r) :
    Extends operator? item level (us ++ t :: vs) (.binary op l r) := by
  intro rest hstop
  rw [List.append_assoc, List.cons_append, hl (t :: (vs ++ rest)) ht,
    plain_chainFrom_of_some hop, hr rest hstop, ok_bind]

/-- A chain is taken in front of what is none of its operators and stops its items. -/
theorem Extends.takes (h : Extends operator? item level us e) {k : Nat} (hle : k ≤ level)
    (hnone : ∀ t, strength t < k → operator? t = none) :
    Takes (Reader.chain operator? item) k us e := by
  intro rest hstop
  rw [h rest (hstop.mono hle)]
  cases rest with
  | nil => exact plain_chainFrom_nil
  | cons t ts => exact plain_chainFrom_of_none (hnone _ hstop)

end Chains

/-- A term is taken in front of what is no sign of a product and no closer. -/
theorem Extends.term {operand : Reader Expr} {us : List Spelled} {e : Expr}
    (h : Extends productOperator? operand 3 us e) :
    Takes (Reader.chain productOperator? operand) 2 us e :=
  h.takes (by omega) fun _ => productOperator?_of_strength

/-- An expression is taken in front of what is no sign of a sum and no closer. -/
theorem Extends.expression {operand : Reader Expr} {us : List Spelled} {e : Expr}
    (h : Extends sumOperator? (Reader.chain productOperator? operand) 2 us e) :
    Takes (Reader.expression operand) 1 us e :=
  h.takes (by omega) fun _ => sumOperator?_of_strength

/-! ### Operands -/

section Operands

variable {nested : Reader Expr} {us vs : List Spelled} {t : Spelled} {e l r : Expr}

/-- Tokens that open a phrase do not begin with a closing parenthesis. -/
theorem not_opensWith_of_opens (h : Opens (us.map Spelled.token)) (rest : List Spelled) :
    ¬ OpensWith .closeParen (us ++ rest) := by
  obtain ⟨t, v, hus, ht⟩ := h
  obtain ⟨u, us, rfl, rfl, -⟩ := List.map_eq_cons_iff.1 hus
  simpa [OpensWith] using ht

/-- An operand with its exponent is one with its signs. -/
theorem Takes.signed (hopen : OpensUnsigned (us.map Spelled.token))
    (h : Takes (Reader.power nested) 3 us e) : Takes (Reader.signed nested) 3 us e := by
  intro rest hstop
  obtain ⟨t, v, hus, -, ht⟩ := hopen
  obtain ⟨u, us, rfl, rfl, -⟩ := List.map_eq_cons_iff.1 hus
  rw [List.cons_append, plain_signed_cons, if_neg (ht _), if_neg (ht _)]
  exact h rest hstop

/-- An operand is one with its exponent, if no power sign follows. -/
theorem Takes.power (h : Takes (primary nested) 4 us e) : Takes (Reader.power nested) 3 us e := by
  intro rest hstop
  rw [plain_power, h rest (hstop.mono (by omega)), ok_bind]
  cases rest with
  | nil => rfl
  | cons t ts =>
    have ht : t.token ≠ .operator .pow := by
      intro heq
      simp [Stops, heq, strength] at hstop
    rw [plain_powerFrom_cons, if_neg ht]

/-- A base, a power sign and an exponent make a power. -/
theorem Takes.pow (hl : Takes (primary nested) 4 us l) (ht : t.token = .operator .pow)
    (hr : Takes nested 3 vs r) :
    Takes (Reader.power nested) 3 (us ++ t :: vs) (.binary .pow l r) := by
  intro rest hstop
  have hpow : Stops 4 (t :: (vs ++ rest)) := by simp [Stops, ht, strength]
  rw [List.append_assoc, List.cons_append, plain_power, hl _ hpow, ok_bind, plain_powerFrom_cons,
    if_pos ht, hr rest hstop, ok_bind]

/-- The name of a constant is an operand, if no parenthesis follows. -/
theorem takes_constant {s : String} {c : Constant} (hc : sameButCase c.name s = true)
    (ht : t.token = .name s) : Takes (primary nested) 4 [t] (.constant c) := by
  intro rest hstop
  have hname : namedConstant s = .ok (.constant c) := by
    rw [namedConstant, Constant.ofName?_eq_some_iff.2 hc]
  rw [List.singleton_append, plain_primary_cons, ht]
  dsimp only
  cases rest with
  | nil => rw [plain_named_nil, hname, ok_bind]
  | cons u ts =>
    have hu : u.token ≠ .openParen := by
      intro heq
      simp [Stops, heq, strength] at hstop
    rw [plain_named_cons, if_neg hu, hname, ok_bind]

/-- An expression between parentheses is an operand. -/
theorem Takes.group {u : Spelled} (hopen : Opens (us.map Spelled.token))
    (h : Takes (expression nested) 1 us e) (ht : t.token = .openParen)
    (hu : u.token = .closeParen) : Takes (primary nested) 4 (t :: (us ++ [u])) e := by
  intro rest hstop
  have hclose : Stops 1 (u :: rest) := by simp [Stops, hu, strength]
  rw [List.cons_append, List.append_assoc, List.singleton_append, plain_primary_cons, ht]
  dsimp only
  rw [plain_group, if_neg (not_opensWith_of_opens hopen _), h _ hclose, ok_bind,
    plain_closing_cons, if_pos hu]

/-- The name of a function and arguments that it accepts, between parentheses, are an operand. -/
theorem takes_call {t' u : Spelled} {s : String} {f : Function} {es : List Expr}
    (hf : sameButCase f.name s = true) (harity : f.arity.Accepts es.length)
    (hargs : ∀ rest, plain (args (expression nested) (us ++ u :: rest)) = .ok (es, u :: rest))
    (ht : t.token = .name s) (ht' : t'.token = .openParen) (hu : u.token = .closeParen) :
    Takes (primary nested) 4 (t :: t' :: (us ++ [u])) (.call f es) := by
  intro rest hstop
  have hname : calledFunction s = .ok f := by
    rw [calledFunction, Function.ofName?_eq_some_iff.2 hf]
  rw [List.cons_append, List.cons_append, List.append_assoc, List.singleton_append,
    plain_primary_cons, ht]
  dsimp only
  rw [plain_named_cons, if_pos ht', plain_call, hname, ok_bind, hargs rest, ok_bind,
    plain_closing_cons, if_pos hu, ok_bind, if_pos harity]

end Operands

/-! ### Phrases -/

/-- Further arguments open with a comma, or are none. -/
theorem stops_of_further {w : List Token} {es : List Expr} {n : Nat} (h : Further w es n)
    {us : List Spelled} (hus : us.map Spelled.token = w) {u : Spelled} (hu : u.token = .closeParen)
    (rest : List Spelled) : Stops 1 (us ++ u :: rest) := by
  cases h with
  | none =>
    obtain rfl := List.map_eq_nil_iff.1 hus
    simp [Stops, hu, strength]
  | comma he hes =>
    obtain ⟨t, vs, rfl, ht, -⟩ := List.map_eq_cons_iff.1 hus
    simp [Stops, ht, strength]

-- The induction is on the derivation; a nested phrase is left to a reader of one level less.
mutual

/-- **Sums are read**: the reader of sums goes on with the chain that an expression is. -/
theorem expression_extends (limit : Nat) : ∀ {w : List Token} {e : Expr} {n : Nat},
    Expression w e n → ∀ {us : List Spelled}, us.map Spelled.token = w → ∀ {levels : Nat},
    n < levels → Extends sumOperator? (chain productOperator? (unary limit levels)) 2 us e
  | _, _, _, .term h, _, hus, _, hn => (term_extends limit h hus hn).term.chain
  | _, _, _, .add hl hr, _, hus, _, hn | _, _, _, .sub hl hr, _, hus, _, hn => by
    obtain ⟨vs, xs, rfl, hvs, hxs⟩ := List.map_eq_append_iff.1 hus
    obtain ⟨t, ws, rfl, ht, hws⟩ := List.map_eq_cons_iff.1 hxs
    have hleft := expression_extends limit hl hvs (max_lt_iff.1 hn).1
    have hright := term_extends limit hr hws (max_lt_iff.1 hn).2
    exact hleft.step (by rw [ht]; rfl) (by rw [ht]; decide) hright.term

/-- **Products are read**: the reader of products goes on with the chain that a term is. -/
theorem term_extends (limit : Nat) : ∀ {w : List Token} {e : Expr} {n : Nat},
    Term w e n → ∀ {us : List Spelled}, us.map Spelled.token = w → ∀ {levels : Nat},
    n < levels → Extends productOperator? (unary limit levels) 3 us e
  | _, _, _, .unary h, _, hus, _, hn => (unary_takes limit h hus hn).chain
  | _, _, _, .mul hl hr, _, hus, _, hn | _, _, _, .div hl hr, _, hus, _, hn => by
    obtain ⟨vs, xs, rfl, hvs, hxs⟩ := List.map_eq_append_iff.1 hus
    obtain ⟨t, ws, rfl, ht, hws⟩ := List.map_eq_cons_iff.1 hxs
    have hleft := term_extends limit hl hvs (max_lt_iff.1 hn).1
    have hright := unary_takes limit hr hws (max_lt_iff.1 hn).2
    exact hleft.step (by rw [ht]; rfl) (by rw [ht]; decide) hright

/-- **Operands with their signs are read.** -/
theorem unary_takes (limit : Nat) : ∀ {w : List Token} {e : Expr} {n : Nat},
    Unary w e n → ∀ {us : List Spelled}, us.map Spelled.token = w → ∀ {levels : Nat},
    n < levels → Takes (unary limit levels) 3 us e
  | _, _, _, .negate h, _, hus, levels + 1, hn => by
    obtain ⟨t, vs, rfl, ht, hvs⟩ := List.map_eq_cons_iff.1 hus
    have hoperand := unary_takes limit h hvs (Nat.lt_of_succ_lt_succ hn)
    intro rest hstop
    rw [unary_succ, List.cons_append, plain_signed_cons, if_pos ht, hoperand rest hstop, ok_bind]
  | _, _, _, .plus h, _, hus, levels + 1, hn => by
    obtain ⟨t, vs, rfl, ht, hvs⟩ := List.map_eq_cons_iff.1 hus
    have hoperand := unary_takes limit h hvs (Nat.lt_of_succ_lt_succ hn)
    intro rest hstop
    rw [unary_succ, List.cons_append, plain_signed_cons, if_neg (by simp [ht]), if_pos ht]
    exact hoperand rest hstop
  | _, _, _, .power h, _, hus, levels + 1, hn =>
    (power_takes limit h hus hn).signed (hus ▸ h.opensUnsigned)

/-- **Operands with their exponents are read.** -/
theorem power_takes (limit : Nat) : ∀ {w : List Token} {e : Expr} {n : Nat},
    Power w e n → ∀ {us : List Spelled}, us.map Spelled.token = w → ∀ {levels : Nat},
    n < levels + 1 → Takes (power (unary limit levels)) 3 us e
  | _, _, _, .primary h, _, hus, _, hn => (primary_takes limit h hus hn).power
  | _, _, _, .pow hl hr, _, hus, _, hn => by
    obtain ⟨vs, xs, rfl, hvs, hxs⟩ := List.map_eq_append_iff.1 hus
    obtain ⟨t, ws, rfl, ht, hws⟩ := List.map_eq_cons_iff.1 hxs
    have hbase := primary_takes limit hl hvs (max_lt_iff.1 hn).1
    have hexponent := unary_takes limit hr hws (Nat.lt_of_succ_lt_succ (max_lt_iff.1 hn).2)
    exact hbase.pow ht hexponent

/-- **Operands are read.** -/
theorem primary_takes (limit : Nat) : ∀ {w : List Token} {e : Expr} {n : Nat},
    Primary w e n → ∀ {us : List Spelled}, us.map Spelled.token = w → ∀ {levels : Nat},
    n < levels + 1 → Takes (primary (unary limit levels)) 4 us e
  | _, _, _, .number x, _, hus, _, _ => by
    obtain ⟨t, rfl, ht⟩ := List.map_eq_singleton_iff.1 hus
    intro rest hstop
    rw [List.singleton_append, plain_primary_cons, ht]
  | _, _, _, .constant hc, _, hus, _, _ => by
    obtain ⟨t, rfl, ht⟩ := List.map_eq_singleton_iff.1 hus
    exact takes_constant hc ht
  | _, _, _, .call hf hargs harity, _, hus, _, hn => by
    obtain ⟨t, xs, rfl, ht, hxs⟩ := List.map_eq_cons_iff.1 hus
    obtain ⟨t', ys, rfl, ht', hys⟩ := List.map_eq_cons_iff.1 hxs
    obtain ⟨vs, zs, rfl, hvs, hzs⟩ := List.map_eq_append_iff.1 hys
    obtain ⟨u, rfl, hu⟩ := List.map_eq_singleton_iff.1 hzs
    exact takes_call hf harity (arguments_read limit hargs hvs hn hu) ht ht' hu
  | _, _, _, .group h, _, hus, _, hn => by
    obtain ⟨t, xs, rfl, ht, hxs⟩ := List.map_eq_cons_iff.1 hus
    obtain ⟨vs, zs, rfl, hvs, hzs⟩ := List.map_eq_append_iff.1 hxs
    obtain ⟨u, rfl, hu⟩ := List.map_eq_singleton_iff.1 hzs
    have hcontent := expression_extends limit h hvs (Nat.lt_of_succ_lt_succ hn)
    exact hcontent.expression.group (hvs ▸ h.opens) ht hu

/-- **Arguments are read** up to a closing parenthesis. -/
theorem arguments_read (limit : Nat) : ∀ {w : List Token} {es : List Expr} {n : Nat},
    Arguments w es n → ∀ {us : List Spelled}, us.map Spelled.token = w → ∀ {levels : Nat},
    n < levels + 1 → ∀ {u : Spelled}, u.token = .closeParen → ∀ rest : List Spelled,
    plain (args (expression (unary limit levels)) (us ++ u :: rest)) = .ok (es, u :: rest)
  | _, _, _, .none, _, hus, _, _, u, hu, rest => by
    obtain rfl := List.map_eq_nil_iff.1 hus
    rw [List.nil_append, plain_args, if_pos (by simp [OpensWith, hu])]
  | _, _, _, .some he hes, _, hus, _, hn, u, hu, rest => by
    obtain ⟨vs, xs, rfl, hvs, hxs⟩ := List.map_eq_append_iff.1 hus
    have hfirst := expression_extends limit he hvs (Nat.lt_of_succ_lt_succ (max_lt_iff.1 hn).1)
    have hmore := further_read limit hes hxs (max_lt_iff.1 hn).2 hu rest
    have hopen := not_opensWith_of_opens (hvs ▸ he.opens) (xs ++ u :: rest)
    rw [List.append_assoc, plain_args, if_neg hopen,
      hfirst.expression _ (stops_of_further hes hxs hu rest), ok_bind, hmore, ok_bind]

/-- **Further arguments are read** up to a closing parenthesis. -/
theorem further_read (limit : Nat) : ∀ {w : List Token} {es : List Expr} {n : Nat},
    Further w es n → ∀ {us : List Spelled}, us.map Spelled.token = w → ∀ {levels : Nat},
    n < levels + 1 → ∀ {u : Spelled}, u.token = .closeParen → ∀ rest : List Spelled,
    plain (moreArgs (expression (unary limit levels)) (us ++ u :: rest)) = .ok (es, u :: rest)
  | _, _, _, .none, _, hus, _, _, u, hu, rest => by
    obtain rfl := List.map_eq_nil_iff.1 hus
    rw [List.nil_append, plain_moreArgs_cons, if_neg (by simp [hu])]
  | _, _, _, .comma he hes, _, hus, _, hn, u, hu, rest => by
    obtain ⟨t, ys, rfl, ht, hys⟩ := List.map_eq_cons_iff.1 hus
    obtain ⟨vs, xs, rfl, hvs, hxs⟩ := List.map_eq_append_iff.1 hys
    have hfirst := expression_extends limit he hvs (Nat.lt_of_succ_lt_succ (max_lt_iff.1 hn).1)
    have hmore := further_read limit hes hxs (max_lt_iff.1 hn).2 hu rest
    rw [List.cons_append, List.append_assoc, plain_moreArgs_cons, if_pos ht,
      hfirst.expression _ (stops_of_further hes hxs hu rest), ok_bind, hmore, ok_bind]

end

/-- **Expressions are taken** by their reader if they nest fewer levels than it may. -/
theorem expression_takes (limit : Nat) {w : List Token} {e : Expr} {n : Nat}
    (h : Expression w e n) {us : List Spelled} (hus : us.map Spelled.token = w) {levels : Nat}
    (hn : n < levels) : Takes (expression (unary limit levels)) 1 us e :=
  (expression_extends limit h hus hn).expression

end Reader

end Reckoner
