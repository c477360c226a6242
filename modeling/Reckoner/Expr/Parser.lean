import Reckoner.Error
import Reckoner.Expr.Basic
import Reckoner.Token.Basic

/-!
# Parsing

From tokens to expressions, by the grammar

* `expression := term (('+' | '-') term)*`, chains leaning to the left,
* `term := unary (('*' | '/') unary)*`, likewise,
* `unary := ('-' | '+') unary | power`,
* `power := primary ('^' unary)?`,
* `primary := number | constant | function '(' (expression (',' expression)*)? ')' |
  '(' expression ')'`.

The operand of a sign, the right operand of a power, a parenthesised expression and an argument
nest one level deeper than what contains them, and the number of levels is limited.

The reader for a level is made from the reader for operands one level deeper; the reader below the
last level refuses everything. A reader takes at least one token, which its result carries as a
proof, so that reading a chain terminates whatever its items are.

Main definitions:

* `Reader` — takes what it reads off the front of a list of tokens;
* `Reader.unary` — the reader of signed operands that may nest so many levels;
* `Reader.expression` — the reader of expressions, given that of their signed operands;
* `Expr.parse` — the expression of a list of tokens.
-/

namespace Reckoner

/-- A token with the text that messages quote it by. -/
structure Spelled where
  /-- The token. -/
  token : Token
  /-- How it is spelled. -/
  spelling : String
  deriving DecidableEq

/-- A token in its canonical spelling. -/
def Spelled.ofToken (t : Token) : Spelled :=
  ⟨t, t.text⟩

/-- What a reader has read, and the fewer than `bound` tokens it has left. -/
structure Parsed (α : Type) (bound : Nat) where
  /-- What was read. -/
  value : α
  /-- The tokens that follow it. -/
  rest : List Spelled
  /-- At least one token was read. -/
  shorter : rest.length < bound

/-- A reader takes what it reads off the front of a list of tokens. -/
abbrev Reader (α : Type) :=
  (tokens : List Spelled) → Except FormulaError (Parsed α tokens.length)

/-- The same, counted against more tokens. -/
def Parsed.weaken {α : Type} {m n : Nat} (p : Parsed α m) (h : m ≤ n) : Parsed α n :=
  ⟨p.value, p.rest, Nat.lt_of_lt_of_le p.shorter h⟩

/-- Whether a list of tokens opens with a given one. -/
def OpensWith (t : Token) (tokens : List Spelled) : Prop :=
  tokens.head?.map Spelled.token = some t

instance (t : Token) (tokens : List Spelled) : Decidable (OpensWith t tokens) :=
  inferInstanceAs (Decidable (_ = _))

namespace Reader

/-! ### Chains -/

/-- The operators of sums. -/
def sumOperator? : Token → Option Operator
  | .operator .add => some .add
  | .operator .sub => some .sub
  | _ => none

/-- The operators of products. -/
def productOperator? : Token → Option Operator
  | .operator .mul => some .mul
  | .operator .div => some .div
  | _ => none

/-- Reads the operators and items that continue a chain from `left` on. -/
def chainFrom (operator? : Token → Option Operator) (item : Reader Expr) (left : Expr) :
    (tokens : List Spelled) → Except FormulaError (Parsed Expr (tokens.length + 1))
  | [] => .ok ⟨left, [], by simp⟩
  | t :: tokens =>
    match operator? t.token with
    | none => .ok ⟨left, t :: tokens, by simp⟩
    | some op =>
      match item tokens with
      | .error e => .error e
      | .ok right =>
        match chainFrom operator? item (.binary op left right.value) right.rest with
        | .error e => .error e
        | .ok p => .ok (p.weaken (by have := right.shorter; simp only [List.length_cons]; omega))
termination_by tokens => tokens.length
decreasing_by
  have := right.shorter
  simp only [List.length_cons]
  omega

/-- Reads items joined by operators, leaning to the left. -/
def chain (operator? : Token → Option Operator) (item : Reader Expr) : Reader Expr :=
  fun tokens => do
    let left ← item tokens
    let p ← chainFrom operator? item left.value left.rest
    .ok (p.weaken left.shorter)

/-- Reads an expression, given the reader of signed operands. -/
def expression (unary : Reader Expr) : Reader Expr :=
  chain sumOperator? (chain productOperator? unary)

/-! ### Parentheses and calls -/

/-- Takes the closing parenthesis of a construct that was read up to it. -/
def closing {α : Type} (construct : Construct) (value : α) :
    (tokens : List Spelled) → Except FormulaError (Parsed α tokens.length)
  | [] => .error (.grammar (.unclosed construct))
  | t :: tokens =>
    if t.token = .closeParen then .ok ⟨value, tokens, by simp⟩
    else .error (.grammar (.closeExpected construct t.spelling))

/-- Reads what follows the opening parenthesis of a group. -/
def group (content : Reader Expr) : Reader Expr := fun tokens =>
  if OpensWith .closeParen tokens then .error (.grammar .emptyGroup)
  else do
    let e ← content tokens
    let p ← closing .group e.value e.rest
    .ok (p.weaken (Nat.le_of_lt e.shorter))

/-- Reads the further arguments of a call, each after a comma. -/
def moreArgs (argument : Reader Expr) :
    (tokens : List Spelled) → Except FormulaError (Parsed (List Expr) (tokens.length + 1))
  | [] => .ok ⟨[], [], by simp⟩
  | t :: tokens =>
    if t.token = .comma then
      match argument tokens with
      | .error e => .error e
      | .ok arg =>
        match moreArgs argument arg.rest with
        | .error e => .error e
        | .ok p =>
          .ok ⟨arg.value :: p.value, p.rest, by
            have := arg.shorter; have := p.shorter; simp only [List.length_cons]; omega⟩
    else
      .ok ⟨[], t :: tokens, by simp⟩
termination_by tokens => tokens.length
decreasing_by
  have := arg.shorter
  simp only [List.length_cons]
  omega

/-- Reads the arguments of a call up to its closing parenthesis, none if that comes first. -/
def args (argument : Reader Expr) (tokens : List Spelled) :
    Except FormulaError (Parsed (List Expr) (tokens.length + 1)) :=
  if OpensWith .closeParen tokens then .ok ⟨[], tokens, by simp⟩
  else do
    let first ← argument tokens
    let p ← moreArgs argument first.rest
    .ok ⟨first.value :: p.value, p.rest, by have := first.shorter; have := p.shorter; omega⟩

/-- The function that a call names. -/
def calledFunction (name : String) : Except FormulaError Function :=
  match Function.ofName? name with
  | some f => .ok f
  | none =>
    match Constant.ofName? name with
    | some _ => .error (.grammar (.constantCalled name))
    | none => .error (.domain (.unknownFunction name))

/-- Reads what follows the opening parenthesis of a call. The name is looked up before the
arguments are read, and they are counted after the closing parenthesis. -/
def call (argument : Reader Expr) (name : String) (tokens : List Spelled) :
    Except FormulaError (Parsed Expr tokens.length) := do
  let f ← calledFunction name
  let list ← args argument tokens
  let p ← closing (.call f) list.value list.rest
  if f.arity.Accepts p.value.length then
    .ok ⟨.call f p.value, p.rest, Nat.lt_of_lt_of_le p.shorter (Nat.le_of_lt_succ list.shorter)⟩
  else .error (.grammar (.argumentCount f p.value.length))

/-! ### Operands -/

/-- The constant that a name stands for where no parenthesis follows. -/
def namedConstant (name : String) : Except FormulaError Expr :=
  match Constant.ofName? name with
  | some c => .ok (.constant c)
  | none =>
    match Function.ofName? name with
    | some f => .error (.grammar (.functionUncalled f))
    | none => .error (.grammar (.unknownName name))

/-- Reads what follows a name: the arguments of a call, or nothing. -/
def named (argument : Reader Expr) (name : String) :
    (tokens : List Spelled) → Except FormulaError (Parsed Expr (tokens.length + 1))
  | [] => do
    let e ← namedConstant name
    .ok ⟨e, [], by simp⟩
  | t :: tokens =>
    if t.token = .openParen then do
      let p ← call argument name tokens
      .ok (p.weaken (by simp only [List.length_cons]; omega))
    else do
      let e ← namedConstant name
      .ok ⟨e, t :: tokens, by simp⟩

/-- Reads an operand without a sign, given the reader of signed operands one level deeper. -/
def primary (nested : Reader Expr) : Reader Expr
  | [] => .error (.grammar .operandMissing)
  | t :: tokens =>
    match t.token with
    | .number x => .ok ⟨.literal x, tokens, by simp⟩
    | .openParen => do
      let p ← group (expression nested) tokens
      .ok (p.weaken (by simp))
    | .name s => named (expression nested) s tokens
    | .placeholder s => .error (.grammar (.unboundPlaceholder s))
    | .eof => .error (.grammar .operandMissing)
    | .operator _ => .error (.grammar (.operandExpected t.spelling))
    | .closeParen => .error (.grammar (.operandExpected t.spelling))
    | .comma => .error (.grammar (.operandExpected t.spelling))

/-- Reads what follows the base of a power: a power sign and an exponent, or nothing. -/
def powerFrom (nested : Reader Expr) (base : Expr) :
    (tokens : List Spelled) → Except FormulaError (Parsed Expr (tokens.length + 1))
  | [] => .ok ⟨base, [], by simp⟩
  | t :: tokens =>
    if t.token = .operator .pow then do
      let exponent ← nested tokens
      .ok ⟨.binary .pow base exponent.value, exponent.rest, by
        have := exponent.shorter; simp only [List.length_cons]; omega⟩
    else .ok ⟨base, t :: tokens, by simp⟩

/-- Reads an operand and its exponent, if there is one. -/
def power (nested : Reader Expr) : Reader Expr := fun tokens => do
  let base ← primary nested tokens
  let p ← powerFrom nested base.value base.rest
  .ok (p.weaken base.shorter)

/-- Reads an operand with its signs, given the reader one level deeper. -/
def signed (nested : Reader Expr) : Reader Expr
  | [] => power nested []
  | t :: tokens =>
    if t.token = .operator .sub then do
      let p ← nested tokens
      .ok ⟨.negate p.value, p.rest, Nat.lt_succ_of_lt p.shorter⟩
    else if t.token = .operator .add then do
      let p ← nested tokens
      .ok (p.weaken (by simp))
    else power nested (t :: tokens)

/-- Reads a signed operand that nests fewer than `levels` levels. Where no level is left, the
limit on nesting is exceeded. -/
def unary (limit : Nat) : (levels : Nat) → Reader Expr
  | 0 => fun _ => .error (.grammar (.tooDeep limit))
  | levels + 1 => signed (unary limit levels)

end Reader

/-- The expression of a list of tokens, up to the end of the formula if it is among them. -/
def Expr.parse (maxDepth : Nat) (tokens : List Spelled) : Except FormulaError Expr :=
  let tokens := tokens.takeWhile (·.token ≠ .eof)
  if tokens = [] then .error (.grammar .noExpression)
  else do
    let p ← Reader.expression (Reader.unary maxDepth (maxDepth + 1)) tokens
    match p.rest with
    | [] => .ok p.value
    | t :: _ =>
      if t.token = .closeParen then .error (.grammar .unmatchedClose)
      else .error (.grammar (.trailing t.spelling))

end Reckoner
