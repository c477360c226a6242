import Mathlib
import Reckoner.Expr.Parser
import Reckoner.Proofs.Steps

/-!
# Readers Without Their Counts

A reader's result carries a proof that tokens were read. Statements about what is read have no use
for it: `Reader.plain` drops it, and here is one equation for each reader in these terms. Proofs
about the readers cite these equations and do not open the definitions.

Main definitions:

* `Reader.plain` — what was read and the tokens that are left, or the error;
* `Reader.afterExpression` — what becomes of a complete expression and the tokens behind it.

Main results:

* `Reader.plain_bind`: a step that uses only what was read and what is left commutes with `plain`;
* `Reader.length_lt_of_plain`: what is left is shorter than what was given;
* `Expr.parse_eq_plain`: the expression of a list of tokens in these terms.
-/

namespace Reckoner

namespace Reader

variable {α β : Type}

/-- What was read and the tokens that are left, or the error. -/
def plain {bound : Nat} (x : Except FormulaError (Parsed α bound)) :
    Except FormulaError (α × List Spelled) :=
  x.map fun p => (p.value, p.rest)

/-- A reading without its bound is the value and what is left. -/
@[simp] theorem plain_ok {bound : Nat} (p : Parsed α bound) :
    plain (.ok p) = .ok (p.value, p.rest) := rfl

/-- An error is read without its bound as itself. -/
@[simp] theorem plain_error {bound : Nat} (err : FormulaError) :
    plain (.error err : Except FormulaError (Parsed α bound)) = .error err := rfl

/-- A step that uses only what was read and what is left commutes with `plain`. -/
theorem plain_bind {m n : Nat} {x : Except FormulaError (Parsed α m)}
    {f : Parsed α m → Except FormulaError (Parsed β n)}
    {g : α × List Spelled → Except FormulaError (β × List Spelled)}
    (h : ∀ p, plain (f p) = g (p.value, p.rest)) : plain (x >>= f) = plain x >>= g := by
  cases x with
  | error err => rfl
  | ok p => exact h p

/-- The same after a step that reads nothing. -/
theorem plain_bind_left {n : Nat} {x : Except FormulaError α}
    {f : α → Except FormulaError (Parsed β n)} :
    plain (x >>= f) = x >>= fun a => plain (f a) := by
  cases x <;> rfl

/-- What is left is shorter than the bound. -/
theorem length_lt_of_plain {bound : Nat} {x : Except FormulaError (Parsed α bound)} {a : α}
    {rest : List Spelled} (h : plain x = .ok (a, rest)) : rest.length < bound := by
  cases x with
  | error err => simp at h
  | ok p =>
    simp only [plain_ok, Except.ok.injEq, Prod.mk.injEq] at h
    obtain ⟨-, rfl⟩ := h
    exact p.shorter

/-! ### Chains -/

/-- The signs of a sum are plus and minus. -/
theorem sumOperator?_eq_some_iff {t : Token} {op : Operator} : sumOperator? t = some op ↔
    (t = .operator .add ∧ op = .add) ∨ (t = .operator .sub ∧ op = .sub) := by
  cases t with
  | operator op' => cases op' <;> simp [sumOperator?, eq_comm]
  | _ => simp [sumOperator?]

/-- The signs of a product are those of multiplication and division. -/
theorem productOperator?_eq_some_iff {t : Token} {op : Operator} : productOperator? t = some op ↔
    (t = .operator .mul ∧ op = .mul) ∨ (t = .operator .div ∧ op = .div) := by
  cases t with
  | operator op' => cases op' <;> simp [productOperator?, eq_comm]
  | _ => simp [productOperator?]

section Chains

variable {operator? : Token → Option Operator} {item : Reader Expr} {left : Expr} {t : Spelled}
  {ts : List Spelled}

/-- Without tokens a chain ends. -/
@[simp] theorem plain_chainFrom_nil :
    plain (chainFrom operator? item left []) = .ok (left, []) := by
  rw [chainFrom, plain_ok]

/-- A chain ends before a token that is none of its operators. -/
theorem plain_chainFrom_of_none (h : operator? t.token = none) :
    plain (chainFrom operator? item left (t :: ts)) = .ok (left, t :: ts) := by
  rw [chainFrom]
  split
  · rfl
  · simp_all

/-- An operator takes the chain so far as its left operand. -/
theorem plain_chainFrom_of_some {op : Operator} (h : operator? t.token = some op) :
    plain (chainFrom operator? item left (t :: ts)) =
      plain (item ts) >>= fun p => plain (chainFrom operator? item (.binary op left p.1) p.2) := by
  rw [chainFrom]
  split
  · simp_all
  · next op' hop =>
    obtain rfl : op' = op := Option.some.inj (hop.symm.trans h)
    cases item ts with
    | error err => rfl
    | ok right =>
      simp only [plain_ok]
      cases hp : chainFrom operator? item (.binary op' left right.value) right.rest <;>
        simp [hp, Parsed.weaken]

/-- A chain is an item and what goes on from there. -/
theorem plain_chain : plain (chain operator? item ts) =
    plain (item ts) >>= fun p => plain (chainFrom operator? item p.1 p.2) := by
  refine plain_bind fun p => ?_
  cases h : chainFrom operator? item p.value p.rest <;> simp [Parsed.weaken]

end Chains

/-! ### Parentheses and calls -/

section Parentheses

variable {content argument : Reader Expr} {value : α} {construct : Construct} {t : Spelled}
  {ts : List Spelled}

/-- Without tokens a construct stays open. -/
@[simp] theorem plain_closing_nil :
    plain (closing construct value []) = .error (.grammar (.unclosed construct)) := rfl

/-- A construct is closed by a closing parenthesis; any other token is quoted. -/
theorem plain_closing_cons : plain (closing construct value (t :: ts)) =
    if t.token = .closeParen then .ok (value, ts)
    else .error (.grammar (.closeExpected construct t.spelling)) := by
  rw [closing]
  split <;> rfl

/-- A group has content up to its closing parenthesis, and is not empty. -/
theorem plain_group : plain (group content ts) =
    if OpensWith .closeParen ts then .error (.grammar .emptyGroup)
    else plain (content ts) >>= fun p => plain (closing .group p.1 p.2) := by
  rw [group]
  split
  · rfl
  · refine plain_bind fun p => ?_
    cases closing .group p.value p.rest <;> rfl

/-- Without tokens there are no more arguments. -/
@[simp] theorem plain_moreArgs_nil : plain (moreArgs argument []) = .ok ([], []) := by
  rw [moreArgs, plain_ok]

/-- One more argument stands behind each comma, and no argument behind another token. -/
theorem plain_moreArgs_cons : plain (moreArgs argument (t :: ts)) =
    if t.token = .comma then
      plain (argument ts) >>= fun a =>
        plain (moreArgs argument a.2) >>= fun p => .ok (a.1 :: p.1, p.2)
    else .ok ([], t :: ts) := by
  rw [moreArgs]
  split
  · cases argument ts with
    | error err => rfl
    | ok a =>
      simp only [plain_ok]
      cases h : moreArgs argument a.rest <;> simp [h]
  · rfl

/-- There are no arguments in front of a closing parenthesis, and at least one elsewhere. -/
theorem plain_args : plain (args argument ts) =
    if OpensWith .closeParen ts then .ok ([], ts)
    else plain (argument ts) >>= fun a =>
      plain (moreArgs argument a.2) >>= fun p => .ok (a.1 :: p.1, p.2) := by
  rw [args]
  split
  · rfl
  · refine plain_bind fun a => ?_
    cases moreArgs argument a.rest <;> rfl

/-- A call looks up its name, reads and closes its arguments, and then counts them. -/
theorem plain_call {name : String} : plain (call argument name ts) =
    calledFunction name >>= fun f => plain (args argument ts) >>= fun l =>
      plain (closing (.call f) l.1 l.2) >>= fun p =>
        if f.arity.Accepts p.1.length then .ok (.call f p.1, p.2)
        else .error (.grammar (.argumentCount f p.1.length)) := by
  rw [call, plain_bind_left]
  refine congrArg _ (funext fun f => plain_bind fun l => plain_bind fun p => ?_)
  split <;> rfl

end Parentheses

/-! ### Names -/

/-- A name that is called and is no function is that of a constant, or no name at all. -/
theorem calledFunction_eq_error {s : String} {err : FormulaError}
    (h : calledFunction s = .error err) :
    err = .grammar (.constantCalled s) ∨ err = .domain (.unknownFunction s) := by
  rw [calledFunction] at h
  split at h
  · cases h
  · split at h
    · exact .inl (Except.error.inj h).symm
    · exact .inr (Except.error.inj h).symm

/-- A name that is not called and is no constant is that of a function, or no name at all. -/
theorem namedConstant_eq_error {s : String} {err : FormulaError}
    (h : namedConstant s = .error err) :
    (∃ f, err = .grammar (.functionUncalled f)) ∨ err = .grammar (.unknownName s) := by
  rw [namedConstant] at h
  split at h
  · cases h
  · split at h
    · exact .inl ⟨_, (Except.error.inj h).symm⟩
    · exact .inr (Except.error.inj h).symm

/-! ### Operands -/

section Operands

variable {argument nested : Reader Expr} {base : Expr} {name : String} {limit levels : Nat}
  {t : Spelled} {ts : List Spelled}

/-- A name at the end of the tokens is that of a constant. -/
@[simp] theorem plain_named_nil :
    plain (named argument name []) = namedConstant name >>= fun e => .ok (e, []) :=
  plain_bind_left

/-- A name is called if an opening parenthesis follows it, and is that of a constant otherwise. -/
theorem plain_named_cons : plain (named argument name (t :: ts)) =
    if t.token = .openParen then plain (call argument name ts)
    else namedConstant name >>= fun e => .ok (e, t :: ts) := by
  rw [named]
  split
  · cases call argument name ts <;> rfl
  · exact plain_bind_left

/-- Without tokens an operand is missing. -/
@[simp] theorem plain_primary_nil :
    plain (primary nested []) = .error (.grammar .operandMissing) := rfl

/-- What a primary is, its first token tells. -/
theorem plain_primary_cons : plain (primary nested (t :: ts)) =
    match t.token with
    | .number x => .ok (.literal x, ts)
    | .openParen => plain (group (expression nested) ts)
    | .name s => plain (named (expression nested) s ts)
    | .placeholder s => .error (.grammar (.unboundPlaceholder s))
    | .eof => .error (.grammar .operandMissing)
    | .operator _ | .closeParen | .comma => .error (.grammar (.operandExpected t.spelling)) := by
  obtain ⟨token, spelling⟩ := t
  cases token with
  | openParen =>
    simp only [primary]
    cases group (expression nested) ts <;> rfl
  | _ => rfl

/-- At the end of the tokens a base has no exponent. -/
@[simp] theorem plain_powerFrom_nil : plain (powerFrom nested base []) = .ok (base, []) := rfl

/-- A base has an exponent if a power sign follows, and stands alone otherwise. -/
theorem plain_powerFrom_cons : plain (powerFrom nested base (t :: ts)) =
    if t.token = .operator .pow then
      plain (nested ts) >>= fun p => .ok (.binary .pow base p.1, p.2)
    else .ok (base, t :: ts) := by
  rw [powerFrom]
  split
  · exact plain_bind fun p => rfl
  · rfl

/-- A power is a primary and what follows it. -/
theorem plain_power : plain (power nested ts) =
    plain (primary nested ts) >>= fun p => plain (powerFrom nested p.1 p.2) := by
  refine plain_bind fun p => ?_
  cases powerFrom nested p.value p.rest <;> rfl

/-- Without tokens there is no sign. -/
@[simp] theorem signed_nil : signed nested [] = power nested [] := rfl

/-- A minus sign negates the operand behind it, and a plus sign leaves it as it is. -/
theorem plain_signed_cons : plain (signed nested (t :: ts)) =
    if t.token = .operator .sub then plain (nested ts) >>= fun p => .ok (.negate p.1, p.2)
    else if t.token = .operator .add then plain (nested ts)
    else plain (power nested (t :: ts)) := by
  rw [signed]
  split
  · exact plain_bind fun p => rfl
  · split
    · cases nested ts <;> rfl
    · rfl

/-- With no level left, nesting is refused. -/
@[simp] theorem plain_unary_zero :
    plain (unary limit 0 ts) = .error (.grammar (.tooDeep limit)) := rfl

/-- With a level left, an operand nests operands of one level less. -/
theorem unary_succ : unary limit (levels + 1) = signed (unary limit levels) := rfl

end Operands

end Reader

/-! ### Whole formulas -/

namespace Expr

/-- What becomes of a complete expression and the tokens behind it. -/
def complete : Expr × List Spelled → Except FormulaError Expr
  | (e, []) => .ok e
  | (_, t :: _) =>
    if t.token = .closeParen then .error (.grammar .unmatchedClose)
    else .error (.grammar (.trailing t.spelling))

/-- The tokens of a formula before its end. -/
def body (ts : List Spelled) : List Spelled :=
  ts.takeWhile (·.token ≠ .eof)

/-- Tokens are read up to the first end of the formula. -/
theorem body_cons (t : Spelled) (ts : List Spelled) :
    body (t :: ts) = if t.token = .eof then [] else t :: body ts := by
  simp only [body, List.takeWhile_cons]
  split_ifs <;> simp_all

/-- What stands in front of the end has no end in it. -/
@[simp] theorem body_body (ts : List Spelled) : body (body ts) = body ts :=
  List.takeWhile_idem

/-- The parser reads an expression from the tokens in front of the end, if there are any, and
refuses what is left. -/
theorem parse_eq_plain (maxDepth : Nat) (ts : List Spelled) : parse maxDepth ts =
    if body ts = [] then .error (.grammar .noExpression)
    else Reader.plain (Reader.expression (Reader.unary maxDepth (maxDepth + 1)) (body ts)) >>=
      complete := by
  simp only [parse, body]
  refine if_congr Iff.rfl rfl ?_
  cases Reader.expression _ _ with
  | error err => rfl
  | ok p =>
    obtain ⟨e, rest, shorter⟩ := p
    cases rest <;> rfl

/-- What follows the end of the formula is not parsed. -/
theorem parse_body (maxDepth : Nat) (ts : List Spelled) :
    parse maxDepth (body ts) = parse maxDepth ts := by
  rw [parse_eq_plain, parse_eq_plain, body_body]

/-- An expression is complete if and only if nothing is left. -/
theorem complete_eq_ok_iff {p : Expr × List Spelled} {e : Expr} :
    complete p = .ok e ↔ p = (e, []) := by
  obtain ⟨e', rest⟩ := p
  cases rest with
  | nil => simp [complete]
  | cons t ts =>
    simp only [complete]
    split_ifs <;> simp

/-- An expression is parsed exactly if its reader takes all tokens before the end. -/
theorem parse_eq_ok_iff_plain {maxDepth : Nat} {ts : List Spelled} {e : Expr} :
    parse maxDepth ts = .ok e ↔ Reader.plain
      (Reader.expression (Reader.unary maxDepth (maxDepth + 1)) (body ts)) = .ok (e, []) := by
  have hnil : body ts = [] → Reader.plain
      (Reader.expression (Reader.unary maxDepth (maxDepth + 1)) (body ts)) ≠ .ok (e, []) := by
    intro h heq
    have := Reader.length_lt_of_plain heq
    simp [h] at this
  rw [parse_eq_plain]
  split_ifs with h
  · simp [hnil h]
  · cases hp : Reader.plain _ with
    | error err => simp
    | ok p => simp [complete_eq_ok_iff]

end Expr

end Reckoner
