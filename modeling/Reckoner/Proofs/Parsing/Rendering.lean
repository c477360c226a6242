import Mathlib
import Reckoner.Proofs.Evaluation.Causes
import Reckoner.Proofs.Parsing.Exact

/-!
# Rendering Expressions

An expression written with its operators between their operands, and with parentheses only where an
operand binds less tightly than its place asks for. What is written in this way is parsed to the
expression it was written from: sums and products lean to the left, powers to the right, and a sign
takes in the power behind it but not the product. So the parser has the precedences that the
rendering goes by.

Main definitions:

* `Expr.level`, `Operator.leftLevel`, `Operator.rightLevel`: how tightly an expression binds, and
  how tightly the operands of an operator have to;
* `Expr.render`: the tokens of an expression;
* `Expr.height`: how many nodes nest;
* `Grammar.Phrase`: the phrases of a level.

Main results:

* `Expr.CallsAccepted.rendersPhrase`: the rendering of an expression is a phrase of its level;
* `Expr.parse_render`: it is parsed to the expression.
-/

namespace Reckoner

/-! ### Levels -/

namespace Operator

/-- How tightly an operator binds. -/
def level : Operator → Nat
  | add | sub => 1
  | mul | div => 2
  | pow => 4

/-- How tightly the left operand of an operator has to bind. -/
def leftLevel : Operator → Nat
  | add | sub => 1
  | mul | div => 2
  | pow => 5

/-- How tightly the right operand of an operator has to bind. -/
def rightLevel : Operator → Nat
  | add | sub => 2
  | mul | div => 3
  | pow => 3

/-- No operator requires more on its left than a primary. -/
theorem leftLevel_le (op : Operator) : op.leftLevel ≤ 5 := by
  cases op <;> decide

/-- No operator requires more on its right than a primary. -/
theorem rightLevel_le (op : Operator) : op.rightLevel ≤ 5 := by
  cases op <;> decide

end Operator

namespace Expr

/-- How tightly an expression binds: as its operator, between products and powers as a sign, and
most tightly without either. -/
def level : Expr → Nat
  | binary op _ _ => op.level
  | negate _ => 3
  | literal _ | constant _ | call _ _ => 5

/-- Tokens of a level, in parentheses where this is **below the level required**. -/
def enclose (level required : Nat) (w : List Token) : List Token :=
  if level < required then .openParen :: (w ++ [.closeParen]) else w

mutual

/-- The tokens of an expression, with **parentheses only where they are needed**. -/
def render : Expr → List Token
  | literal x => [.number x]
  | constant c => [.name c.name]
  | negate e => .operator .sub :: enclose e.level 3 e.render
  | binary op l r =>
    enclose l.level op.leftLevel l.render ++
      .operator op :: enclose r.level op.rightLevel r.render
  | call f args => .name f.name :: .openParen :: (renderArgs args ++ [.closeParen])

/-- The tokens of arguments, with commas between them. -/
def renderArgs : List Expr → List Token
  | [] => []
  | e :: args => enclose e.level 1 e.render ++ renderFurther args

/-- The tokens of further arguments, each after a comma. -/
def renderFurther : List Expr → List Token
  | [] => []
  | e :: args => .comma :: (enclose e.level 1 e.render ++ renderFurther args)

end

mutual

/-- How many **nodes nest** in an expression, its leaves not counted. -/
def height : Expr → Nat
  | literal _ | constant _ => 0
  | negate e => e.height + 1
  | binary _ l r => max l.height r.height + 1
  | call _ args => heightArgs args + 1

/-- How many nodes nest in the highest one of some arguments. -/
def heightArgs : List Expr → Nat
  | [] => 0
  | e :: args => max e.height (heightArgs args)

end

end Expr

/-! ### Phrases of a level -/

namespace Grammar

/-- The **phrases of a level**: what binds at least so tightly. -/
def Phrase : (level : Nat) → (w : List Token) → (e : Expr) → (n : Nat) → Prop
  | 0 | 1 => Expression
  | 2 => Term
  | 3 => Unary
  | 4 => Power
  | _ => Primary

variable {v w : List Token} {e l r : Expr} {m n : Nat}

/-- A phrase of a level is one of the level below. -/
theorem Phrase.of_succ : ∀ {level : Nat}, Phrase (level + 1) w e n → Phrase level w e n
  | 0, h => h
  | 1, h => .term h
  | 2, h => .unary h
  | 3, h => .power h
  | 4, h => .primary h
  | _ + 5, h => h

/-- What binds more tightly may stand for what binds less. -/
theorem Phrase.mono {level required : Nat} (h : Phrase level w e n) (hle : required ≤ level) :
    Phrase required w e n := by
  induction hle with
  | refl => exact h
  | step _ ih => exact ih h.of_succ

/-- **In parentheses where they are needed**, a phrase is one of the level required. -/
theorem Phrase.enclose {level required : Nat} (h : Phrase level w e n) (hle : required ≤ 5) :
    ∃ k ≤ n + 1, Phrase required (Expr.enclose level required w) e k := by
  rw [Expr.enclose]
  split_ifs with hlt
  · have hexpression : Phrase 0 w e n := h.mono (Nat.zero_le level)
    have hgroup : Phrase 5 (.openParen :: (w ++ [.closeParen])) e (n + 1) := .group hexpression
    exact ⟨n + 1, le_rfl, hgroup.mono hle⟩
  · exact ⟨n, Nat.le_succ n, h.mono (Nat.not_lt.1 hlt)⟩

/-- An operator between phrases of the levels that it requires. -/
theorem Phrase.binary {op : Operator} (hl : Phrase op.leftLevel v l m)
    (hr : Phrase op.rightLevel w r n) :
    ∃ k ≤ max m (n + 1), Phrase op.level (v ++ .operator op :: w) (.binary op l r) k := by
  cases op with
  | add => exact ⟨max m n, by omega, Expression.add hl hr⟩
  | sub => exact ⟨max m n, by omega, Expression.sub hl hr⟩
  | mul => exact ⟨max m n, by omega, Term.mul hl hr⟩
  | div => exact ⟨max m n, by omega, Term.div hl hr⟩
  | pow => exact ⟨max m (n + 1), le_rfl, Power.pow hl hr⟩

end Grammar

/-! ### What is rendered is parsed -/

namespace Expr

open Grammar

/-- The rendering of an expression is a phrase of its level. Each node costs at most **two levels of
nesting**: one of its own, and one for the parentheses around it. -/
def RendersPhrase (e : Expr) : Prop :=
  ∃ n ≤ 2 * e.height, Phrase e.level e.render e n

/-- An operand is rendered as a phrase of the level that its place requires. -/
theorem RendersPhrase.enclose {e : Expr} (h : e.RendersPhrase) (required : Nat)
    (hle : required ≤ 5) :
    ∃ n ≤ 2 * e.height + 1, Phrase required (enclose e.level required e.render) e n := by
  obtain ⟨n, hn, he⟩ := h
  obtain ⟨k, hk, he⟩ := he.enclose hle
  exact ⟨k, hk.trans (Nat.succ_le_succ hn), he⟩

/-- The arguments behind the first one are rendered as such. -/
theorem RendersPhrase.further {args : List Expr} (h : ∀ e ∈ args, e.RendersPhrase) :
    ∃ n ≤ 2 * heightArgs args + 2, Further (renderFurther args) args n := by
  induction args with
  | nil => exact ⟨0, Nat.zero_le _, .none⟩
  | cons e args ih =>
    obtain ⟨hfirst, hrest⟩ := List.forall_mem_cons.1 h
    obtain ⟨m, hm, he⟩ := hfirst.enclose 1 (by decide)
    obtain ⟨n, hn, hes⟩ := ih hrest
    refine ⟨max (m + 1) n, ?_, .comma he hes⟩
    rw [heightArgs]
    omega

/-- The arguments of a call are rendered as arguments. -/
theorem RendersPhrase.arguments {args : List Expr} (h : ∀ e ∈ args, e.RendersPhrase) :
    ∃ n ≤ 2 * heightArgs args + 2, Arguments (renderArgs args) args n := by
  cases args with
  | nil => exact ⟨0, Nat.zero_le _, .none⟩
  | cons e args =>
    obtain ⟨hfirst, hrest⟩ := List.forall_mem_cons.1 h
    obtain ⟨m, hm, he⟩ := hfirst.enclose 1 (by decide)
    obtain ⟨n, hn, hes⟩ := RendersPhrase.further hrest
    refine ⟨max (m + 1) n, ?_, .some he hes⟩
    rw [heightArgs]
    omega

/-- **The rendering of an expression is a phrase of its level.** -/
theorem CallsAccepted.rendersPhrase {e : Expr} (h : e.CallsAccepted) : e.RendersPhrase := by
  -- Heights bound the levels: two for each node, one of them for its parentheses.
  induction e using operands_induction with
  | node e ih =>
    have hoperands : ∀ s ∈ e.operands, s.RendersPhrase :=
      fun s hs => ih s hs ((callsAccepted_iff.1 h).2 s hs)
    cases e with
    | literal x => exact ⟨0, Nat.zero_le _, Primary.number x⟩
    | constant c => exact ⟨0, Nat.zero_le _, Primary.constant (sameButCase_self c.name)⟩
    | negate e =>
      obtain ⟨n, hn, he⟩ := (hoperands e List.mem_cons_self).enclose 3 (by decide)
      refine ⟨n + 1, ?_, Unary.negate he⟩
      rw [height]
      omega
    | binary op l r =>
      obtain ⟨m, hm, hl⟩ := (hoperands l (by simp [operands])).enclose _ op.leftLevel_le
      obtain ⟨n, hn, hr⟩ := (hoperands r (by simp [operands])).enclose _ op.rightLevel_le
      obtain ⟨k, hk, he⟩ := hl.binary hr
      refine ⟨k, ?_, he⟩
      rw [height]
      omega
    | call f args =>
      have hall : ∀ s ∈ args, s.RendersPhrase := hoperands
      obtain ⟨n, hn, hargs⟩ := RendersPhrase.arguments hall
      refine ⟨n, ?_, Primary.call (sameButCase_self f.name) hargs (callsAccepted_call.1 h).1⟩
      rw [height]
      omega

/-- **What is rendered is parsed**: the tokens of an expression, with no more parentheses than it
needs, are parsed to the expression, if its functions are called with numbers of arguments that they
accept and twice its height may nest. -/
theorem parse_render (e : Expr) (maxDepth : Nat) (hcounts : e.CallsAccepted)
    (hdepth : 2 * e.height ≤ maxDepth) :
    Expr.parse maxDepth (e.render.map Spelled.ofToken) = .ok e := by
  obtain ⟨n, hn, he⟩ := hcounts.rendersPhrase
  have hexpression : Expression e.render e n := he.mono (Nat.zero_le _)
  refine parse_eq_ok_iff.2 ⟨n, hn.trans hdepth, ?_⟩
  rwa [map_token_body, Spelled.map_token_map_ofToken, hexpression.takeWhile_ne_eof]

/-- A difference on the right of another one, and a power of a negative number below a sign: the
tokens of `pi-(-(-NaN)^max(e,e)-e)`, with the least depth that is asked for. -/
theorem parse_render_difference :
    Expr.render (binary .sub (constant .pi) (binary .sub (negate (binary .pow
        (negate (literal .nan)) (call .max [constant .e, constant .e]))) (constant .e))) =
      [.name "pi", .operator .sub, .openParen, .operator .sub, .openParen, .operator .sub,
        .number .nan, .closeParen, .operator .pow, .name "max", .openParen, .name "e", .comma,
        .name "e", .closeParen, .operator .sub, .name "e", .closeParen] ∧
    (binary .sub (constant .pi) (binary .sub (negate (binary .pow (negate (literal .nan))
        (call .max [constant .e, constant .e]))) (constant .e))).CallsAccepted ∧
    Expr.parse 10 ([.name "pi", .operator .sub, .openParen, .operator .sub, .openParen,
        .operator .sub, .number .nan, .closeParen, .operator .pow, .name "max", .openParen,
        .name "e", .comma, .name "e", .closeParen, .operator .sub, .name "e",
        .closeParen].map Spelled.ofToken) =
      .ok (binary .sub (constant .pi) (binary .sub (negate (binary .pow (negate (literal .nan))
        (call .max [constant .e, constant .e]))) (constant .e))) := by
  have hcounts : (binary .sub (constant .pi) (binary .sub (negate (binary .pow
      (negate (literal .nan)) (call .max [constant .e, constant .e])))
      (constant .e))).CallsAccepted := by
    simp [Arity.Accepts, Function.arity]
  exact ⟨rfl, hcounts, parse_render _ 10 hcounts (by decide)⟩

end Expr

end Reckoner
