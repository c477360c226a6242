import Mathlib
import Reckoner.Proofs.Parsing.Grammar
import Reckoner.Proofs.Parsing.Plain

/-!
# What Is Read Is in the Grammar

Each reader is **sound**: the tokens it takes off the front are a phrase of the grammar that builds
what it returns, and that phrase nests no deeper than the reader may. There is one lemma for each
reader, under the assumption that the reader it is made from is sound; the readers of signed
operands follow by induction on the levels they may nest.

Main results:

* `Reader.unary_sound`: the reader of signed operands is sound;
* `Reader.expression_sound`: with it, the reader of expressions is.
-/

namespace Reckoner

namespace Reader

open Grammar

variable {α : Type}

/-- What a reader takes off the front is a phrase that nests fewer than `levels` levels. -/
def Sound (Phrase : List Token → Expr → Nat → Prop) (levels : Nat) (reader : Reader Expr) : Prop :=
  ∀ ⦃ts : List Spelled⦄ ⦃e : Expr⦄ ⦃rest : List Spelled⦄, plain (reader ts) = .ok (e, rest) →
    ∃ us n, ts = us ++ rest ∧ Phrase (us.map Spelled.token) e n ∧ n < levels

/-! ### Chains -/

/-- The operators and items that a chain goes on with extend the chain so far, the tokens `w`. -/
theorem chainFrom_sound {Chain Item : List Token → Expr → Nat → Prop}
    {operator? : Token → Option Operator} {item : Reader Expr} {levels : Nat}
    (step : ∀ {t op v w l r m n}, operator? t = some op → Chain v l m → Item w r n →
      Chain (v ++ t :: w) (.binary op l r) (max m n))
    (hitem : Sound Item levels item) {ts : List Spelled} {left e : Expr} {rest : List Spelled}
    {w : List Token} {m : Nat} (hleft : Chain w left m) (hm : m < levels)
    (h : plain (chainFrom operator? item left ts) = .ok (e, rest)) :
    ∃ us n, ts = us ++ rest ∧ Chain (w ++ us.map Spelled.token) e n ∧ n < levels := by
  -- Every round of the chain leaves fewer tokens.
  induction hlen : ts.length using Nat.strong_induction_on generalizing ts left w m with
  | _ len ih =>
    cases ts with
    | nil =>
      simp only [plain_chainFrom_nil, Except.ok.injEq, Prod.mk.injEq] at h
      obtain ⟨rfl, rfl⟩ := h
      exact ⟨[], m, rfl, by simpa using hleft, hm⟩
    | cons t ts =>
      cases hop : operator? t.token with
      | none =>
        rw [plain_chainFrom_of_none hop, Except.ok.injEq, Prod.mk.injEq] at h
        obtain ⟨rfl, rfl⟩ := h
        exact ⟨[], m, rfl, by simpa using hleft, hm⟩
      | some op =>
        rw [plain_chainFrom_of_some hop, bind_eq_ok_iff] at h
        obtain ⟨⟨right, rest'⟩, hright, hrest⟩ := h
        have hlt : rest'.length < len := by
          have := length_lt_of_plain hright
          simp only [List.length_cons] at hlen
          omega
        obtain ⟨vs, k, rfl, hr, hk⟩ := hitem hright
        obtain ⟨us, n, rfl, he, hn⟩ :=
          ih _ hlt (step hop hleft hr) (max_lt hm hk) hrest rfl
        exact ⟨t :: vs ++ us, n, by simp, by simpa using he, hn⟩

/-- A chain of sound items is sound, if an item alone is a chain and an operator with one more item
makes a longer one. -/
theorem chain_sound {Chain Item : List Token → Expr → Nat → Prop}
    {operator? : Token → Option Operator} {item : Reader Expr} {levels : Nat}
    (single : ∀ {w e n}, Item w e n → Chain w e n)
    (step : ∀ {t op v w l r m n}, operator? t = some op → Chain v l m → Item w r n →
      Chain (v ++ t :: w) (.binary op l r) (max m n))
    (hitem : Sound Item levels item) : Sound Chain levels (chain operator? item) := by
  intro ts e rest h
  rw [plain_chain, bind_eq_ok_iff] at h
  obtain ⟨⟨left, rest'⟩, hleft, hrest⟩ := h
  obtain ⟨vs, m, rfl, hl, hm⟩ := hitem hleft
  obtain ⟨us, n, rfl, he, hn⟩ := chainFrom_sound step hitem (single hl) hm hrest
  exact ⟨vs ++ us, n, by simp, by simpa using he, hn⟩

/-- The operators of products with one more operand make a longer term. -/
theorem term_step {t : Token} {op : Operator} {v w : List Token} {l r : Expr} {m n : Nat}
    (h : productOperator? t = some op) (hl : Term v l m) (hr : Unary w r n) :
    Term (v ++ t :: w) (.binary op l r) (max m n) := by
  rcases productOperator?_eq_some_iff.1 h with ⟨rfl, rfl⟩ | ⟨rfl, rfl⟩
  · exact .mul hl hr
  · exact .div hl hr

/-- The operators of sums with one more term make a longer expression. -/
theorem expression_step {t : Token} {op : Operator} {v w : List Token} {l r : Expr} {m n : Nat}
    (h : sumOperator? t = some op) (hl : Expression v l m) (hr : Term w r n) :
    Expression (v ++ t :: w) (.binary op l r) (max m n) := by
  rcases sumOperator?_eq_some_iff.1 h with ⟨rfl, rfl⟩ | ⟨rfl, rfl⟩
  · exact .add hl hr
  · exact .sub hl hr

/-- With sound operands, expressions are read soundly. -/
theorem expression_sound {operand : Reader Expr} {levels : Nat}
    (h : Sound Unary levels operand) : Sound Expression levels (expression operand) :=
  chain_sound .term expression_step (chain_sound .unary term_step h)

/-! ### Parentheses and calls -/

/-- A construct is closed by a closing parenthesis, and what was read is kept. -/
theorem closing_sound {construct : Construct} {a b : α} {ts rest : List Spelled}
    (h : plain (closing construct a ts) = .ok (b, rest)) :
    a = b ∧ ∃ t, ts = t :: rest ∧ t.token = .closeParen := by
  cases ts with
  | nil => simp at h
  | cons t ts =>
    rw [plain_closing_cons] at h
    split_ifs at h with ht
    · obtain ⟨rfl, rfl⟩ := Prod.mk.inj (Except.ok.inj h)
      exact ⟨rfl, t, rfl, ht⟩

/-- A group is an expression and a closing parenthesis. -/
theorem group_sound {content : Reader Expr} {levels : Nat}
    (hcontent : Sound Expression levels content)
    {ts rest : List Spelled} {e : Expr} (h : plain (group content ts) = .ok (e, rest)) :
    ∃ us t n, ts = us ++ t :: rest ∧ t.token = .closeParen ∧
      Expression (us.map Spelled.token) e n ∧ n < levels := by
  rw [plain_group] at h
  split_ifs at h
  obtain ⟨⟨e', rest'⟩, he, hclose⟩ := bind_eq_ok_iff.1 h
  obtain ⟨rfl, t, rfl, ht⟩ := closing_sound hclose
  obtain ⟨us, n, rfl, hus, hn⟩ := hcontent he
  exact ⟨us, t, n, rfl, ht, hus, hn⟩

/-- Further arguments are expressions, each after a comma. -/
theorem moreArgs_sound {argument : Reader Expr} {levels : Nat}
    (hargument : Sound Expression levels argument) {ts rest : List Spelled} {es : List Expr}
    (h : plain (moreArgs argument ts) = .ok (es, rest)) :
    ∃ us n, ts = us ++ rest ∧ Further (us.map Spelled.token) es n ∧ n < levels + 1 := by
  -- Each further argument leaves fewer tokens.
  induction hlen : ts.length using Nat.strong_induction_on generalizing ts es with
  | _ len ih =>
    cases ts with
    | nil =>
      simp only [plain_moreArgs_nil, Except.ok.injEq, Prod.mk.injEq] at h
      obtain ⟨rfl, rfl⟩ := h
      exact ⟨[], 0, rfl, .none, by omega⟩
    | cons t ts =>
      rw [plain_moreArgs_cons] at h
      split_ifs at h with ht
      · obtain ⟨⟨e, rest₁⟩, he, h⟩ := bind_eq_ok_iff.1 h
        obtain ⟨⟨es', rest₂⟩, hes, h⟩ := bind_eq_ok_iff.1 h
        obtain ⟨rfl, rfl⟩ := Prod.mk.inj (Except.ok.inj h)
        have hlt : rest₁.length < len := by
          have := length_lt_of_plain he
          simp only [List.length_cons] at hlen
          omega
        obtain ⟨vs, m, rfl, hvs, hm⟩ := hargument he
        obtain ⟨us, n, rfl, hus, hn⟩ := ih _ hlt hes rfl
        refine ⟨t :: (vs ++ us), max (m + 1) n, by simp, ?_, by omega⟩
        simpa [ht] using Further.comma hvs hus
      · obtain ⟨rfl, rfl⟩ := Prod.mk.inj (Except.ok.inj h)
        exact ⟨[], 0, rfl, .none, by omega⟩

/-- Arguments are none, or an expression and further arguments. -/
theorem args_sound {argument : Reader Expr} {levels : Nat}
    (hargument : Sound Expression levels argument) {ts rest : List Spelled} {es : List Expr}
    (h : plain (args argument ts) = .ok (es, rest)) :
    ∃ us n, ts = us ++ rest ∧ Arguments (us.map Spelled.token) es n ∧ n < levels + 1 := by
  rw [plain_args] at h
  split_ifs at h with hopen
  · obtain ⟨rfl, rfl⟩ := Prod.mk.inj (Except.ok.inj h)
    exact ⟨[], 0, rfl, .none, by omega⟩
  · obtain ⟨⟨e, rest₁⟩, he, h⟩ := bind_eq_ok_iff.1 h
    obtain ⟨⟨es', rest₂⟩, hes, h⟩ := bind_eq_ok_iff.1 h
    obtain ⟨rfl, rfl⟩ := Prod.mk.inj (Except.ok.inj h)
    obtain ⟨vs, m, rfl, hvs, hm⟩ := hargument he
    obtain ⟨us, n, rfl, hus, hn⟩ := moreArgs_sound hargument hes
    refine ⟨vs ++ us, max (m + 1) n, by simp, ?_, by omega⟩
    simpa using Arguments.some hvs hus

/-- Only a function is called. -/
theorem ofName?_of_calledFunction {name : String} {f : Function}
    (h : calledFunction name = .ok f) : Function.ofName? name = some f := by
  rw [calledFunction] at h
  split at h
  · next g hg => rw [hg, Except.ok.inj h]
  · split at h <;> simp at h

/-- Only a constant stands for itself. -/
theorem ofName?_of_namedConstant {name : String} {e : Expr} (h : namedConstant name = .ok e) :
    ∃ c, e = .constant c ∧ Constant.ofName? name = some c := by
  rw [namedConstant] at h
  split at h
  · next c hc => exact ⟨c, (Except.ok.inj h).symm, hc⟩
  · split at h <;> simp at h

/-- A name, an opening parenthesis and what a call reads behind them are an operand. -/
theorem call_sound {argument : Reader Expr} {levels : Nat}
    (hargument : Sound Expression levels argument) {name : String} {ts rest : List Spelled}
    {e : Expr} (h : plain (call argument name ts) = .ok (e, rest)) :
    ∃ us n, ts = us ++ rest ∧
      Primary (.name name :: .openParen :: us.map Spelled.token) e n ∧ n < levels + 1 := by
  rw [plain_call] at h
  obtain ⟨f, hf, h⟩ := bind_eq_ok_iff.1 h
  obtain ⟨⟨es, rest₁⟩, hes, h⟩ := bind_eq_ok_iff.1 h
  obtain ⟨⟨es', rest₂⟩, hclose, h⟩ := bind_eq_ok_iff.1 h
  split_ifs at h with harity
  obtain ⟨rfl, rfl⟩ := Prod.mk.inj (Except.ok.inj h)
  obtain ⟨rfl, t, rfl, ht⟩ := closing_sound hclose
  obtain ⟨us, n, rfl, hus, hn⟩ := args_sound hargument hes
  have hname := Function.ofName?_eq_some_iff.1 (ofName?_of_calledFunction hf)
  refine ⟨us ++ [t], n, by simp, ?_, hn⟩
  simpa [ht] using Primary.call hname hus harity

/-! ### Operands -/

/-- A name and what is read behind it are an operand. -/
theorem named_sound {argument : Reader Expr} {levels : Nat}
    (hargument : Sound Expression levels argument) {name : String} {ts rest : List Spelled}
    {e : Expr} (h : plain (named argument name ts) = .ok (e, rest)) :
    ∃ us n, ts = us ++ rest ∧ Primary (.name name :: us.map Spelled.token) e n ∧
      n < levels + 1 := by
  have hconstant : ∀ {e' ts'}, namedConstant name = .ok e' → (e', ts') = (e, rest) →
      ∃ us n, ts' = us ++ rest ∧ Primary (.name name :: us.map Spelled.token) e n ∧
        n < levels + 1 := by
    intro e' ts' he heq
    obtain ⟨rfl, rfl⟩ := Prod.mk.inj heq
    obtain ⟨c, rfl, hc⟩ := ofName?_of_namedConstant he
    exact ⟨[], 0, rfl, .constant (Constant.ofName?_eq_some_iff.1 hc), by omega⟩
  cases ts with
  | nil =>
    obtain ⟨e', he, h⟩ := bind_eq_ok_iff.1 (plain_named_nil.symm.trans h)
    exact hconstant he (Except.ok.inj h)
  | cons t ts =>
    rw [plain_named_cons] at h
    split_ifs at h with ht
    · obtain ⟨us, n, rfl, hus, hn⟩ := call_sound hargument h
      exact ⟨t :: us, n, rfl, by simpa [ht] using hus, hn⟩
    · obtain ⟨e', he, h⟩ := bind_eq_ok_iff.1 h
      exact hconstant he (Except.ok.inj h)

/-- With sound operands one level deeper, operands without a sign are read soundly. -/
theorem primary_sound {nested : Reader Expr} {levels : Nat} (h : Sound Unary levels nested) :
    Sound Primary (levels + 1) (primary nested) := by
  intro ts e rest hread
  cases ts with
  | nil => simp at hread
  | cons t ts =>
    obtain ⟨token, spelling⟩ := t
    rw [plain_primary_cons] at hread
    cases token with
    | number x =>
      obtain ⟨rfl, rfl⟩ := Prod.mk.inj (Except.ok.inj hread)
      exact ⟨[⟨.number x, spelling⟩], 0, rfl, .number x, by omega⟩
    | openParen =>
      obtain ⟨us, t, n, rfl, ht, hus, hn⟩ := group_sound (expression_sound h) hread
      refine ⟨⟨.openParen, spelling⟩ :: (us ++ [t]), n + 1, by simp, ?_, by omega⟩
      simpa [ht] using Primary.group hus
    | name s =>
      obtain ⟨us, n, rfl, hus, hn⟩ := named_sound (expression_sound h) hread
      exact ⟨⟨.name s, spelling⟩ :: us, n, rfl, hus, hn⟩
    | placeholder _ | operator _ | closeParen | comma | eof => simp at hread

/-- Likewise operands with their exponents. -/
theorem power_sound {nested : Reader Expr} {levels : Nat} (h : Sound Unary levels nested) :
    Sound Power (levels + 1) (power nested) := by
  intro ts e rest hread
  rw [plain_power, bind_eq_ok_iff] at hread
  obtain ⟨⟨base, rest₁⟩, hbase, hread⟩ := hread
  obtain ⟨vs, m, rfl, hvs, hm⟩ := primary_sound h hbase
  cases rest₁ with
  | nil =>
    obtain ⟨rfl, rfl⟩ := Prod.mk.inj (Except.ok.inj (plain_powerFrom_nil.symm.trans hread))
    exact ⟨vs, m, rfl, .primary hvs, hm⟩
  | cons t ts =>
    rw [plain_powerFrom_cons] at hread
    split_ifs at hread with ht
    · obtain ⟨⟨exponent, rest₂⟩, hexponent, hread⟩ := bind_eq_ok_iff.1 hread
      obtain ⟨rfl, rfl⟩ := Prod.mk.inj (Except.ok.inj hread)
      obtain ⟨us, n, rfl, hus, hn⟩ := h hexponent
      refine ⟨vs ++ t :: us, max m (n + 1), by simp, ?_, by omega⟩
      simpa [ht] using Power.pow hvs hus
    · obtain ⟨rfl, rfl⟩ := Prod.mk.inj (Except.ok.inj hread)
      exact ⟨vs, m, rfl, .primary hvs, hm⟩

/-- Likewise operands with their signs. -/
theorem signed_sound {nested : Reader Expr} {levels : Nat} (h : Sound Unary levels nested) :
    Sound Unary (levels + 1) (signed nested) := by
  intro ts e rest hread
  have hpower : plain (power nested ts) = .ok (e, rest) → ∃ us n, ts = us ++ rest ∧
      Unary (us.map Spelled.token) e n ∧ n < levels + 1 := by
    intro hp
    obtain ⟨us, n, hts, hus, hn⟩ := power_sound h hp
    exact ⟨us, n, hts, .power hus, hn⟩
  cases ts with
  | nil => exact hpower hread
  | cons t ts =>
    rw [plain_signed_cons] at hread
    split_ifs at hread with hsub hadd
    · obtain ⟨⟨operand, rest₁⟩, hoperand, hread⟩ := bind_eq_ok_iff.1 hread
      obtain ⟨rfl, rfl⟩ := Prod.mk.inj (Except.ok.inj hread)
      obtain ⟨us, n, rfl, hus, hn⟩ := h hoperand
      exact ⟨t :: us, n + 1, rfl, by simpa [hsub] using Unary.negate hus, by omega⟩
    · obtain ⟨us, n, rfl, hus, hn⟩ := h hread
      exact ⟨t :: us, n + 1, rfl, by simpa [hadd] using Unary.plus hus, by omega⟩
    · exact hpower hread

/-- **Signed operands are read soundly**, whatever the number of levels. -/
theorem unary_sound (limit levels : Nat) : Sound Unary levels (unary limit levels) := by
  induction levels with
  | zero =>
    intro ts e rest hread
    simp at hread
  | succ levels ih =>
    rw [unary_succ]
    exact signed_sound ih

end Reader

end Reckoner
