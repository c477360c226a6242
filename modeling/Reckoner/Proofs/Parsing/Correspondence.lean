import Mathlib
import Reckoner.Proofs.Parsing.Plain

/-!
# Two Readings Side by Side

Two lists of tokens that correspond one to one are read in step: at each token both readers do the
same, so that they end with corresponding expressions and what is left corresponds again, or with
corresponding errors. What tokens, expressions and errors have to have to do with one another for
this is a `Correspondence`.

The first reading may also **stop** with an error that says nothing about the second one, such as a
limit that only the first one has. A reader that may nest some levels, counting its own as one, has
at least as many tokens in front of it when it runs out of them, as each level takes one; this is
kept track of, so that what is too short to stop does not.

Main definitions:

* `Agree` — two results agree, or the first one stopped;
* `Expr.Congruence` — a relation of expressions that goes through their nodes;
* `Correspondence` — corresponding tokens, expressions and errors;
* `Correspondence.Simulates` — two readers agree on corresponding tokens.

Main results:

* `Correspondence.unary_simulates`: if two readers of signed operands agree, so do those that may
  nest some levels more;
* `Correspondence.parse_agree`: if the readers of signed operands agree, the parsers do;
* `Correspondence.parse_agree_self`: so they do within the same limit.
-/

namespace Reckoner

/-! ### Results -/

/-- Two results **agree** if both are values that correspond or both are errors that do, or the
first one is an error that stops. -/
inductive Agree {α β : Type} (stop : FormulaError → Prop)
    (error : FormulaError → FormulaError → Prop) (value : α → β → Prop) :
    Except FormulaError α → Except FormulaError β → Prop
  | ok {a : α} {b : β} : value a b → Agree stop error value (.ok a) (.ok b)
  | error {err err' : FormulaError} : error err err' →
      Agree stop error value (.error err) (.error err')
  | stopped {err : FormulaError} {y : Except FormulaError β} : stop err →
      Agree stop error value (.error err) y

namespace Agree

variable {α β γ δ : Type} {stop : FormulaError → Prop}
  {err : FormulaError → FormulaError → Prop} {value : α → β → Prop} {value' : γ → δ → Prop}
  {x : Except FormulaError α} {y : Except FormulaError β}

/-- Steps that agree on corresponding values agree after results that do. -/
theorem bind (h : Agree stop err value x y) {f : α → Except FormulaError γ}
    {g : β → Except FormulaError δ}
    (hfg : ∀ a b, x = .ok a → value a b → Agree stop err value' (f a) (g b)) :
    Agree stop err value' (x >>= f) (y >>= g) := by
  cases h with
  | ok hab => exact hfg _ _ rfl hab
  | error he => exact .error he
  | stopped hs => exact .stopped hs

/-- What is made of corresponding values corresponds. -/
theorem map (h : Agree stop err value x y) {f : α → γ} {g : β → δ}
    (hfg : ∀ a b, value a b → value' (f a) (g b)) : Agree stop err value' (x.map f) (y.map g) := by
  cases h with
  | ok hab => exact .ok (hfg _ _ hab)
  | error he => exact .error he
  | stopped hs => exact .stopped hs

/-- A result agrees with itself if its error, if it is one, corresponds to itself. -/
theorem refl (h : ∀ e, x = .error e → err e e) : Agree stop err Eq x x := by
  cases x with
  | error e => exact .error (h e rfl)
  | ok a => exact .ok rfl

/-- Where nothing stops, both are errors or both are values. -/
theorem error_or_ok (h : Agree (fun _ => False) err value x y) :
    (∃ e e', x = .error e ∧ y = .error e' ∧ err e e') ∨
      ∃ a b, x = .ok a ∧ y = .ok b ∧ value a b := by
  cases h with
  | ok hab => exact .inr ⟨_, _, rfl, rfl, hab⟩
  | error he => exact .inl ⟨_, _, rfl, rfl, he⟩
  | stopped hs => exact hs.elim

/-- What corresponds may be more. -/
theorem imp (h : Agree stop err value x y) {value' : α → β → Prop}
    (hvalue : ∀ a b, value a b → value' a b) : Agree stop err value' x y := by
  cases h with
  | ok hab => exact .ok (hvalue _ _ hab)
  | error he => exact .error he
  | stopped hs => exact .stopped hs

/-- So may errors that correspond. -/
theorem imp_error (h : Agree stop err value x y) {err' : FormulaError → FormulaError → Prop}
    (herr : ∀ e e', err e e' → err' e e') : Agree stop err' value x y := by
  cases h with
  | ok hab => exact .ok hab
  | error he => exact .error (herr _ _ he)
  | stopped hs => exact .stopped hs

/-- What stops may be more. -/
theorem mono (h : Agree stop err value x y) {stop' : FormulaError → Prop}
    (hstop : ∀ e, stop e → stop' e) : Agree stop' err value x y := by
  cases h with
  | ok hab => exact .ok hab
  | error he => exact .error he
  | stopped hs => exact .stopped (hstop _ hs)

end Agree

/-! ### Correspondences -/

/-- Two tokens are **alike** if they are the same but for numbers, which stand for expressions that
correspond, and names, which are looked up with results that do. -/
inductive Token.Alike (expr : Expr → Expr → Prop) (error : FormulaError → FormulaError → Prop) :
    Token → Token → Prop
  | number {x y : Binary64} : expr (.literal x) (.literal y) →
      Token.Alike expr error (.number x) (.number y)
  | name {s s' : String} :
      Agree (fun _ => False) error Eq (Reader.calledFunction s) (Reader.calledFunction s') →
      Agree (fun _ => False) error expr (Reader.namedConstant s) (Reader.namedConstant s') →
      Token.Alike expr error (.name s) (.name s')
  | placeholder {s s' : String} :
      error (.grammar (.unboundPlaceholder s)) (.grammar (.unboundPlaceholder s')) →
      Token.Alike expr error (.placeholder s) (.placeholder s')
  | operator (op : Operator) : Token.Alike expr error (.operator op) (.operator op)
  | openParen : Token.Alike expr error .openParen .openParen
  | closeParen : Token.Alike expr error .closeParen .closeParen
  | comma : Token.Alike expr error .comma .comma
  | eof : Token.Alike expr error .eof .eof

/-- A token is like itself if its number, or what its name is looked up as, corresponds to
itself. -/
theorem Token.Alike.self {expr : Expr → Expr → Prop} {error : FormulaError → FormulaError → Prop}
    {t : Token} (hnumber : ∀ x, expr (.literal x) (.literal x))
    (hfunction : ∀ s, Agree (fun _ => False) error Eq (Reader.calledFunction s)
      (Reader.calledFunction s))
    (hconstant : ∀ s, Agree (fun _ => False) error expr (Reader.namedConstant s)
      (Reader.namedConstant s))
    (hplaceholder : ∀ s, t = .placeholder s →
      error (.grammar (.unboundPlaceholder s)) (.grammar (.unboundPlaceholder s))) :
    Token.Alike expr error t t := by
  cases t with
  | number x => exact .number (hnumber x)
  | name s => exact .name (hfunction s) (hconstant s)
  | placeholder s => exact .placeholder (hplaceholder s rfl)
  | operator op => exact .operator op
  | openParen => exact .openParen
  | closeParen => exact .closeParen
  | comma => exact .comma
  | eof => exact .eof

/-- A relation of expressions is a **congruence** if it goes through their nodes. -/
structure Expr.Congruence (r : Expr → Expr → Prop) : Prop where
  negate {e e' : Expr} : r e e' → r (.negate e) (.negate e')
  binary {op : Operator} {x x' y y' : Expr} :
    r x x' → r y y' → r (.binary op x y) (.binary op x' y')
  call {f : Function} {es es' : List Expr} : List.Forall₂ r es es' → r (.call f es) (.call f es')

/-- Equality goes through the nodes of expressions. -/
theorem Expr.congruence_eq : Expr.Congruence Eq where
  negate h := h ▸ rfl
  binary h h' := h ▸ h' ▸ rfl
  call h := by
    rw [List.forall₂_eq_eq_eq] at h
    rw [h]

/-- Faults that readers find in the shape alone: they quote no token, and no limit is exceeded. -/
def GrammarFault.IsBare : GrammarFault → Prop
  | unmatchedClose | emptyGroup | operandMissing | unclosed _ | argumentCount _ _ => True
  | _ => False

/-- What the tokens, expressions and errors of two readings have to do with one another. -/
structure Correspondence where
  /-- Tokens that correspond. -/
  token : Spelled → Spelled → Prop
  /-- Expressions that correspond. -/
  expr : Expr → Expr → Prop
  /-- Errors that correspond. -/
  error : FormulaError → FormulaError → Prop
  /-- Errors that stop the first reading. -/
  stop : FormulaError → Prop
  alike {t t' : Spelled} : token t t' → Token.Alike expr error t.token t'.token
  congruence : Expr.Congruence expr
  fault {f : GrammarFault} : f.IsBare → error (.grammar f) (.grammar f)
  operandExpected {t t' : Spelled} : token t t' →
    error (.grammar (.operandExpected t.spelling)) (.grammar (.operandExpected t'.spelling))
  closeExpected {t t' : Spelled} {construct : Construct} : token t t' →
    error (.grammar (.closeExpected construct t.spelling))
      (.grammar (.closeExpected construct t'.spelling))
  trailing {t t' : Spelled} : token t t' →
    error (.grammar (.trailing t.spelling)) (.grammar (.trailing t'.spelling))

namespace Token

/-- Tokens that are no number, name or placeholder. -/
def IsSymbol : Token → Prop
  | number _ | name _ | placeholder _ => False
  | _ => True

namespace Alike

variable {expr : Expr → Expr → Prop} {error : FormulaError → FormulaError → Prop} {t t' : Token}

/-- A symbol is only like itself. -/
theorem eq_iff (h : Alike expr error t t') {c : Token} (hc : c.IsSymbol) : t = c ↔ t' = c := by
  cases h with
  | number _ | name _ _ | placeholder _ => cases c <;> simp [IsSymbol] at hc ⊢
  | operator _ | openParen | closeParen | comma | eof => rfl

/-- Like tokens are the same sign of a sum, if they are one. -/
theorem sumOperator?_eq (h : Alike expr error t t') :
    Reader.sumOperator? t = Reader.sumOperator? t' := by
  cases h <;> rfl

/-- Like tokens are the same sign of a product, if they are one. -/
theorem productOperator?_eq (h : Alike expr error t t') :
    Reader.productOperator? t = Reader.productOperator? t' := by
  cases h <;> rfl

end Alike

end Token

namespace Correspondence

/-- Tokens that correspond one to one. -/
abbrev Tokens (C : Correspondence) : List Spelled → List Spelled → Prop :=
  List.Forall₂ C.token

/-- Two readings of at most `count` tokens agree: what was read and what is left corresponds, or the
errors do, or the first one stopped with at least `room` tokens to read. -/
abbrev Readings (C : Correspondence) {α β : Type} (room count : Nat) (value : α → β → Prop) :
    Except FormulaError (α × List Spelled) → Except FormulaError (β × List Spelled) → Prop :=
  Agree (fun err => C.stop err ∧ room ≤ count) C.error fun p q => value p.1 q.1 ∧ C.Tokens p.2 q.2

/-- Two readers agree on tokens that correspond; the first one stops only in front of at least
`room` of them. -/
def Simulates (C : Correspondence) (room : Nat) (reader reader' : Reader Expr) : Prop :=
  ∀ ⦃ts ts' : List Spelled⦄ ⦃count : Nat⦄, C.Tokens ts ts' → ts.length ≤ count →
    C.Readings room count C.expr (Reader.plain (reader ts)) (Reader.plain (reader' ts'))

variable {C : Correspondence} {α β γ δ : Type} {room count : Nat} {ts ts' : List Spelled}

/-- Tokens that correspond open with the same symbols. -/
theorem Tokens.opensWith_iff (h : C.Tokens ts ts') {c : Token} (hc : c.IsSymbol) :
    OpensWith c ts ↔ OpensWith c ts' := by
  cases h with
  | nil => rfl
  | cons ht _ => simpa [OpensWith] using (C.alike ht).eq_iff hc

/-- One token more in front leaves room for one level more. -/
theorem Readings.succ {value : α → β → Prop} {x : Except FormulaError (α × List Spelled)}
    {y : Except FormulaError (β × List Spelled)} (h : C.Readings room count value x y) :
    C.Readings (room + 1) (count + 1) value x y :=
  h.mono fun _ hstop => ⟨hstop.1, Nat.succ_le_succ hstop.2⟩

open Reader

/-! ### Chains -/

/-- Chains so far that correspond are gone on with in step. -/
theorem chainFrom_readings {operator? : Token → Option Operator}
    (hoperator : ∀ {t t'}, Token.Alike C.expr C.error t t' → operator? t = operator? t')
    {item item' : Reader Expr} (hitem : C.Simulates room item item') {left left' : Expr}
    (hleft : C.expr left left') (hts : C.Tokens ts ts') (hcount : ts.length ≤ count) :
    C.Readings room count C.expr (plain (chainFrom operator? item left ts))
      (plain (chainFrom operator? item' left' ts')) := by
  -- Every round of the first chain leaves fewer tokens.
  obtain ⟨len, hlen⟩ : ∃ n, ts.length = n := ⟨_, rfl⟩
  induction len using Nat.strong_induction_on generalizing ts ts' left left' with
  | _ len ih =>
    cases hts with
    | nil =>
      rw [plain_chainFrom_nil, plain_chainFrom_nil]
      exact .ok ⟨hleft, .nil⟩
    | @cons t t' us us' ht hus =>
      have hop := hoperator (C.alike ht)
      rw [List.length_cons] at hlen hcount
      cases h : operator? t.token with
      | none =>
        rw [plain_chainFrom_of_none h, plain_chainFrom_of_none (hop.symm.trans h)]
        exact .ok ⟨hleft, .cons ht hus⟩
      | some op =>
        rw [plain_chainFrom_of_some h, plain_chainFrom_of_some (hop.symm.trans h)]
        refine (hitem hus (by omega)).bind fun p q hp hpq => ?_
        have hlt := length_lt_of_plain hp
        exact ih _ (by omega) (C.congruence.binary hleft hpq.1) hpq.2 (by omega) rfl

/-- Chains agree if their items do, and tell the same operators. -/
theorem chain_simulates {operator? : Token → Option Operator}
    (hoperator : ∀ {t t'}, Token.Alike C.expr C.error t t' → operator? t = operator? t')
    {item item' : Reader Expr} (hitem : C.Simulates room item item') :
    C.Simulates room (chain operator? item) (chain operator? item') := by
  intro ts ts' count hts hcount
  rw [plain_chain, plain_chain]
  refine (hitem hts hcount).bind fun p q hp hpq => ?_
  have hlt := length_lt_of_plain hp
  exact chainFrom_readings hoperator hitem hpq.1 hpq.2 (by omega)

/-- Expressions agree if their operands do. -/
theorem expression_simulates {operand operand' : Reader Expr}
    (h : C.Simulates room operand operand') :
    C.Simulates room (expression operand) (expression operand') :=
  chain_simulates Token.Alike.sumOperator?_eq (chain_simulates Token.Alike.productOperator?_eq h)

/-! ### Parentheses and calls -/

/-- The end of a construct is read in step: the tokens there are both closing parentheses, or
neither is one. -/
theorem closing_readings {value : α → β → Prop} {a : α} {b : β} (hab : value a b)
    (construct : Construct) (hts : C.Tokens ts ts') :
    C.Readings room count value (plain (closing construct a ts))
      (plain (closing construct b ts')) := by
  cases hts with
  | nil => exact .error (C.fault trivial)
  | @cons t t' us us' ht hus =>
    have hclose := (C.alike ht).eq_iff (c := .closeParen) trivial
    rw [plain_closing_cons, plain_closing_cons]
    by_cases h : t.token = .closeParen
    · rw [if_pos h, if_pos (hclose.1 h)]
      exact .ok ⟨hab, hus⟩
    · rw [if_neg h, if_neg (mt hclose.2 h)]
      exact .error (C.closeExpected ht)

/-- Groups agree if what they contain does. -/
theorem group_simulates {content content' : Reader Expr} (h : C.Simulates room content content') :
    C.Simulates room (group content) (group content') := by
  intro ts ts' count hts hcount
  have hopen := hts.opensWith_iff (c := .closeParen) trivial
  rw [plain_group, plain_group]
  by_cases hclose : OpensWith .closeParen ts
  · rw [if_pos hclose, if_pos (hopen.1 hclose)]
    exact .error (C.fault trivial)
  · rw [if_neg hclose, if_neg (mt hopen.2 hclose)]
    refine (h hts hcount).bind fun p q _ hpq => ?_
    exact closing_readings hpq.1 _ hpq.2

/-- Further arguments are read in step. -/
theorem moreArgs_readings {argument argument' : Reader Expr}
    (h : C.Simulates room argument argument') (hts : C.Tokens ts ts') (hcount : ts.length ≤ count) :
    C.Readings room count (List.Forall₂ C.expr) (plain (moreArgs argument ts))
      (plain (moreArgs argument' ts')) := by
  obtain ⟨len, hlen⟩ : ∃ n, ts.length = n := ⟨_, rfl⟩
  induction len using Nat.strong_induction_on generalizing ts ts' with
  | _ len ih =>
    cases hts with
    | nil =>
      rw [plain_moreArgs_nil, plain_moreArgs_nil]
      exact .ok ⟨.nil, .nil⟩
    | @cons t t' us us' ht hus =>
      have hcomma := (C.alike ht).eq_iff (c := .comma) trivial
      rw [List.length_cons] at hlen hcount
      rw [plain_moreArgs_cons, plain_moreArgs_cons]
      by_cases hc : t.token = .comma
      · rw [if_pos hc, if_pos (hcomma.1 hc)]
        refine (h hus (by omega)).bind fun a b ha hab => ?_
        have hlt := length_lt_of_plain ha
        refine (ih _ (by omega) hab.2 (by omega) rfl).bind fun p q _ hpq => ?_
        exact .ok ⟨.cons hab.1 hpq.1, hpq.2⟩
      · rw [if_neg hc, if_neg (mt hcomma.2 hc)]
        exact .ok ⟨.nil, .cons ht hus⟩

/-- Arguments agree one by one. -/
theorem args_readings {argument argument' : Reader Expr} (h : C.Simulates room argument argument')
    (hts : C.Tokens ts ts') (hcount : ts.length ≤ count) :
    C.Readings room count (List.Forall₂ C.expr) (plain (args argument ts))
      (plain (args argument' ts')) := by
  have hopen := hts.opensWith_iff (c := .closeParen) trivial
  rw [plain_args, plain_args]
  by_cases hclose : OpensWith .closeParen ts
  · rw [if_pos hclose, if_pos (hopen.1 hclose)]
    exact .ok ⟨.nil, hts⟩
  · rw [if_neg hclose, if_neg (mt hopen.2 hclose)]
    refine (h hts hcount).bind fun a b ha hab => ?_
    have hlt := length_lt_of_plain ha
    refine (moreArgs_readings h hab.2 (by omega)).bind fun p q _ hpq => ?_
    exact .ok ⟨.cons hab.1 hpq.1, hpq.2⟩

/-- Names that are looked up with results that agree are called in step. -/
theorem call_readings {argument argument' : Reader Expr} (h : C.Simulates room argument argument')
    {s s' : String}
    (hname : Agree (fun _ => False) C.error Eq (calledFunction s) (calledFunction s'))
    (hts : C.Tokens ts ts') (hcount : ts.length ≤ count) :
    C.Readings room count C.expr (plain (call argument s ts)) (plain (call argument' s' ts')) := by
  rw [plain_call, plain_call]
  refine (hname.mono (by simp)).bind fun f g _ hfg => ?_
  obtain rfl := hfg
  refine (args_readings h hts hcount).bind fun p q _ hpq => ?_
  refine (closing_readings hpq.1 _ hpq.2).bind fun l m _ hlm => ?_
  rw [← hlm.1.length_eq]
  split_ifs
  · exact .ok ⟨C.congruence.call hlm.1, hlm.2⟩
  · exact .error (C.fault trivial)

/-! ### Operands -/

/-- Names agree if they are looked up with results that correspond, called or not. -/
theorem named_readings {argument argument' : Reader Expr} (h : C.Simulates room argument argument')
    {s s' : String}
    (hcalled : Agree (fun _ => False) C.error Eq (calledFunction s) (calledFunction s'))
    (hnamed : Agree (fun _ => False) C.error C.expr (namedConstant s) (namedConstant s'))
    (hts : C.Tokens ts ts') (hcount : ts.length ≤ count) :
    C.Readings room count C.expr (plain (named argument s ts))
      (plain (named argument' s' ts')) := by
  have hconstant : C.Readings room count C.expr (namedConstant s >>= fun e => .ok (e, ts))
      (namedConstant s' >>= fun e => .ok (e, ts')) :=
    (hnamed.mono (by simp)).bind fun e e' _ he => .ok ⟨he, hts⟩
  cases hts with
  | nil => simpa using hconstant
  | @cons t t' us us' ht hus =>
    have hopen := (C.alike ht).eq_iff (c := .openParen) trivial
    rw [List.length_cons] at hcount
    rw [plain_named_cons, plain_named_cons]
    by_cases hparen : t.token = .openParen
    · rw [if_pos hparen, if_pos (hopen.1 hparen)]
      exact call_readings h hcalled hus (by omega)
    · rw [if_neg hparen, if_neg (mt hopen.2 hparen)]
      exact hconstant

/-- Primaries agree if what nests in them does, with one token more in front. -/
theorem primary_simulates {nested nested' : Reader Expr} (h : C.Simulates room nested nested') :
    C.Simulates (room + 1) (primary nested) (primary nested') := by
  intro ts ts' count hts hcount
  cases hts with
  | nil => exact .error (C.fault trivial)
  | @cons t t' us us' ht hus =>
    obtain ⟨count, rfl⟩ : ∃ k, count = k + 1 := ⟨count - 1, by simp at hcount; omega⟩
    have hle := Nat.le_of_succ_le_succ hcount
    have hexpression := expression_simulates h
    have halike := C.alike ht
    have hexpected := C.operandExpected ht
    rw [plain_primary_cons, plain_primary_cons]
    obtain ⟨token, spelling⟩ := t
    obtain ⟨token', spelling'⟩ := t'
    cases halike with
    | number hx => exact .ok ⟨hx, hus⟩
    | name hcalled hnamed => exact (named_readings hexpression hcalled hnamed hus hle).succ
    | placeholder herr => exact .error herr
    | operator op => exact .error hexpected
    | openParen => exact (group_simulates hexpression hus hle).succ
    | closeParen => exact .error hexpected
    | comma => exact .error hexpected
    | eof => exact .error (C.fault trivial)

/-- What follows bases that correspond agrees if the exponents do. -/
theorem powerFrom_readings {nested nested' : Reader Expr} (h : C.Simulates room nested nested')
    {base base' : Expr} (hbase : C.expr base base') (hts : C.Tokens ts ts')
    (hcount : ts.length ≤ count) :
    C.Readings (room + 1) count C.expr (plain (powerFrom nested base ts))
      (plain (powerFrom nested' base' ts')) := by
  cases hts with
  | nil => exact .ok ⟨hbase, .nil⟩
  | @cons t t' us us' ht hus =>
    obtain ⟨count, rfl⟩ : ∃ k, count = k + 1 := ⟨count - 1, by simp at hcount; omega⟩
    have hpow := (C.alike ht).eq_iff (c := .operator .pow) trivial
    rw [plain_powerFrom_cons, plain_powerFrom_cons]
    by_cases hp : t.token = .operator .pow
    · rw [if_pos hp, if_pos (hpow.1 hp)]
      refine (h hus (Nat.le_of_succ_le_succ hcount)).succ.bind fun p q _ hpq => ?_
      exact .ok ⟨C.congruence.binary hbase hpq.1, hpq.2⟩
    · rw [if_neg hp, if_neg (mt hpow.2 hp)]
      exact .ok ⟨hbase, .cons ht hus⟩

/-- Powers agree if what nests in them does. -/
theorem power_simulates {nested nested' : Reader Expr} (h : C.Simulates room nested nested') :
    C.Simulates (room + 1) (power nested) (power nested') := by
  intro ts ts' count hts hcount
  rw [plain_power, plain_power]
  refine (primary_simulates h hts hcount).bind fun p q hp hpq => ?_
  have hlt := length_lt_of_plain hp
  exact powerFrom_readings h hpq.1 hpq.2 (by omega)

/-- Operands with signs agree if what nests in them does. -/
theorem signed_simulates {nested nested' : Reader Expr} (h : C.Simulates room nested nested') :
    C.Simulates (room + 1) (signed nested) (signed nested') := by
  intro ts ts' count hts hcount
  have hpower := power_simulates h hts hcount
  cases hts with
  | nil => exact hpower
  | @cons t t' us us' ht hus =>
    obtain ⟨count, rfl⟩ : ∃ k, count = k + 1 := ⟨count - 1, by simp at hcount; omega⟩
    have hle := Nat.le_of_succ_le_succ hcount
    have hsub := (C.alike ht).eq_iff (c := .operator .sub) trivial
    have hadd := (C.alike ht).eq_iff (c := .operator .add) trivial
    rw [plain_signed_cons, plain_signed_cons]
    by_cases hs : t.token = .operator .sub
    · rw [if_pos hs, if_pos (hsub.1 hs)]
      refine (h hus hle).succ.bind fun p q _ hpq => ?_
      exact .ok ⟨C.congruence.negate hpq.1, hpq.2⟩
    · rw [if_neg hs, if_neg (mt hsub.2 hs)]
      by_cases ha : t.token = .operator .add
      · rw [if_pos ha, if_pos (hadd.1 ha)]
        exact (h hus hle).succ
      · rw [if_neg ha, if_neg (mt hadd.2 ha)]
        exact hpower

/-- **Nesting keeps step**: if two readers of signed operands agree, so do those that may nest some
levels more. -/
theorem unary_simulates {limit limit' levels levels' : Nat}
    (h : C.Simulates levels (unary limit levels) (unary limit' levels')) (more : Nat) :
    C.Simulates (levels + more) (unary limit (levels + more)) (unary limit' (levels' + more)) := by
  induction more with
  | zero => exact h
  | succ more ih => exact signed_simulates ih

/-! ### Whole formulas -/

/-- What comes before the end of the formula corresponds. -/
theorem Tokens.body (h : C.Tokens ts ts') : C.Tokens (Expr.body ts) (Expr.body ts') := by
  induction h with
  | nil => exact .nil
  | @cons t t' us us' ht hus ih =>
    have heof := (C.alike ht).eq_iff (c := .eof) trivial
    rw [Expr.body_cons, Expr.body_cons]
    by_cases he : t.token = .eof
    · rw [if_pos he, if_pos (heof.1 he)]
      exact .nil
    · rw [if_neg he, if_neg (mt heof.2 he)]
      exact .cons ht ih

/-- **Corresponding formulas are parsed in step**, if their signed operands are read in step. Only
where there are no tokens is no reader asked. -/
theorem parse_agree {d d' : Nat}
    (h : C.Simulates room (unary d (d + 1)) (unary d' (d' + 1))) (hts : C.Tokens ts ts')
    (hnone : Expr.body ts = [] → C.error (.grammar .noExpression) (.grammar .noExpression)) :
    Agree (fun err => C.stop err ∧ room ≤ (Expr.body ts).length) C.error C.expr
      (Expr.parse d ts) (Expr.parse d' ts') := by
  have hbody := hts.body
  have hnil : Expr.body ts = [] ↔ Expr.body ts' = [] := by
    rw [← List.length_eq_zero_iff, hbody.length_eq, List.length_eq_zero_iff]
  rw [Expr.parse_eq_plain, Expr.parse_eq_plain]
  by_cases he : Expr.body ts = []
  · rw [if_pos he, if_pos (hnil.1 he)]
    exact .error (hnone he)
  · rw [if_neg he, if_neg (mt hnil.2 he)]
    refine (expression_simulates h hbody le_rfl).bind ?_
    rintro ⟨e, rest⟩ ⟨e', rest'⟩ - ⟨hee, hrest⟩
    cases hrest with
    | nil => exact .ok hee
    | @cons t t' us us' ht hus =>
      have hclose := (C.alike ht).eq_iff (c := .closeParen) trivial
      simp only [Expr.complete]
      by_cases hc : t.token = .closeParen
      · rw [if_pos hc, if_pos (hclose.1 hc)]
        exact .error (C.fault trivial)
      · rw [if_neg hc, if_neg (mt hclose.2 hc)]
        exact .error (C.trailing ht)

/-- **Within the same limit corresponding formulas are parsed in step**: the levels are used up in
both readings at once. -/
theorem parse_agree_self {d : Nat}
    (h : C.error (.grammar (.tooDeep d)) (.grammar (.tooDeep d))) (hts : C.Tokens ts ts')
    (hnone : Expr.body ts = [] → C.error (.grammar .noExpression) (.grammar .noExpression)) :
    Agree C.stop C.error C.expr (Expr.parse d ts) (Expr.parse d ts') := by
  have hbase : C.Simulates 0 (unary d 0) (unary d 0) := fun _ _ _ _ _ => .error h
  have hunary := unary_simulates hbase (d + 1)
  rw [Nat.zero_add] at hunary
  exact (parse_agree hunary hts hnone).mono fun _ hstop => hstop.1

end Correspondence

end Reckoner
