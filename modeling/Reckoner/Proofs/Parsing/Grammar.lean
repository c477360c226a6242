import Mathlib
import Reckoner.Expr.Basic
import Reckoner.Token.Basic

/-!
# The Grammar of Formulas

Which tokens are a formula, which expression they build and how deep they nest, said without a
parser:

* `expression := term (('+' | '-') term)*`, leaning to the left,
* `term := unary (('*' | '/') unary)*`, leaning to the left,
* `unary := '-' unary | '+' unary | power`, where a prefix plus builds nothing,
* `power := primary ('^' unary)?`,
* `primary := number | constant | function '(' arguments ')' | '(' expression ')'`,
* `arguments := (expression (',' expression)*)?`, as many as the function accepts.

A derivation **nests** as many levels as there are, at the deepest place, operands of prefix signs,
right operands of powers, groups and arguments around it. No form lets an opening parenthesis follow
an operand, so a name before one is always that of a function.

Main definitions:

* `Grammar.Expression w e n` — the tokens `w` are an expression that builds `e` and nests `n`
  levels; likewise `Term`, `Unary`, `Power`, `Primary`, `Arguments` and `Further`.
-/

namespace Reckoner

namespace Grammar

mutual

/-- The tokens `w` are an **expression** that builds `e` and nests `n` levels. -/
inductive Expression : (w : List Token) → (e : Expr) → (n : Nat) → Prop
  | term {w : List Token} {e : Expr} {n : Nat} : Term w e n → Expression w e n
  | add {v w : List Token} {l r : Expr} {m n : Nat} : Expression v l m → Term w r n →
      Expression (v ++ .operator .add :: w) (.binary .add l r) (max m n)
  | sub {v w : List Token} {l r : Expr} {m n : Nat} : Expression v l m → Term w r n →
      Expression (v ++ .operator .sub :: w) (.binary .sub l r) (max m n)

/-- The tokens `w` are a **term** that builds `e` and nests `n` levels. -/
inductive Term : (w : List Token) → (e : Expr) → (n : Nat) → Prop
  | unary {w : List Token} {e : Expr} {n : Nat} : Unary w e n → Term w e n
  | mul {v w : List Token} {l r : Expr} {m n : Nat} : Term v l m → Unary w r n →
      Term (v ++ .operator .mul :: w) (.binary .mul l r) (max m n)
  | div {v w : List Token} {l r : Expr} {m n : Nat} : Term v l m → Unary w r n →
      Term (v ++ .operator .div :: w) (.binary .div l r) (max m n)

/-- The tokens `w` are an **operand with its signs** that builds `e` and nests `n` levels. -/
inductive Unary : (w : List Token) → (e : Expr) → (n : Nat) → Prop
  | negate {w : List Token} {e : Expr} {n : Nat} : Unary w e n →
      Unary (.operator .sub :: w) (.negate e) (n + 1)
  | plus {w : List Token} {e : Expr} {n : Nat} : Unary w e n →
      Unary (.operator .add :: w) e (n + 1)
  | power {w : List Token} {e : Expr} {n : Nat} : Power w e n → Unary w e n

/-- The tokens `w` are an **operand with its exponent**, if it has one, that builds `e` and nests
`n` levels. -/
inductive Power : (w : List Token) → (e : Expr) → (n : Nat) → Prop
  | primary {w : List Token} {e : Expr} {n : Nat} : Primary w e n → Power w e n
  | pow {v w : List Token} {l r : Expr} {m n : Nat} : Primary v l m → Unary w r n →
      Power (v ++ .operator .pow :: w) (.binary .pow l r) (max m (n + 1))

/-- The tokens `w` are an **operand** that builds `e` and nests `n` levels. -/
inductive Primary : (w : List Token) → (e : Expr) → (n : Nat) → Prop
  | number (x : Binary64) : Primary [.number x] (.literal x) 0
  | constant {s : String} {c : Constant} : sameButCase c.name s = true →
      Primary [.name s] (.constant c) 0
  | call {s : String} {f : Function} {w : List Token} {es : List Expr} {n : Nat} :
      sameButCase f.name s = true → Arguments w es n → f.arity.Accepts es.length →
      Primary (.name s :: .openParen :: (w ++ [.closeParen])) (.call f es) n
  | group {w : List Token} {e : Expr} {n : Nat} : Expression w e n →
      Primary (.openParen :: (w ++ [.closeParen])) e (n + 1)

/-- The tokens `w` are the **arguments** of a call, they build `es` and nest `n` levels. -/
inductive Arguments : (w : List Token) → (es : List Expr) → (n : Nat) → Prop
  | none : Arguments [] [] 0
  | some {v w : List Token} {e : Expr} {es : List Expr} {m n : Nat} : Expression v e m →
      Further w es n → Arguments (v ++ w) (e :: es) (max (m + 1) n)

/-- The tokens `w` are the **further arguments** of a call, each after a comma. -/
inductive Further : (w : List Token) → (es : List Expr) → (n : Nat) → Prop
  | none : Further [] [] 0
  | comma {v w : List Token} {e : Expr} {es : List Expr} {m n : Nat} : Expression v e m →
      Further w es n → Further (.comma :: (v ++ w)) (e :: es) (max (m + 1) n)

end

/-! ### How phrases open -/

/-- Tokens that **open** a phrase: there is a first one, and it is no closing parenthesis. -/
def Opens (w : List Token) : Prop :=
  ∃ t v, w = t :: v ∧ t ≠ .closeParen

/-- Tokens that open an operand without a sign: nor is the first one an operator. -/
def OpensUnsigned (w : List Token) : Prop :=
  ∃ t v, w = t :: v ∧ t ≠ .closeParen ∧ ∀ op, t ≠ .operator op

/-- Whatever follows tokens, they open in the same way. -/
theorem Opens.append {v : List Token} (h : Opens v) (w : List Token) : Opens (v ++ w) := by
  obtain ⟨t, v, rfl, ht⟩ := h
  exact ⟨t, v ++ w, rfl, ht⟩

/-- Whatever follows tokens that open an operand without a sign, they still do. -/
theorem OpensUnsigned.append {v : List Token} (h : OpensUnsigned v) (w : List Token) :
    OpensUnsigned (v ++ w) := by
  obtain ⟨t, v, rfl, ht⟩ := h
  exact ⟨t, v ++ w, rfl, ht⟩

/-- Tokens that open an operand without a sign open a phrase. -/
theorem OpensUnsigned.opens {w : List Token} (h : OpensUnsigned w) : Opens w := by
  obtain ⟨t, v, rfl, ht, -⟩ := h
  exact ⟨t, v, rfl, ht⟩

/-- A primary opens with no sign. -/
theorem Primary.opensUnsigned {w : List Token} {e : Expr} {n : Nat} (h : Primary w e n) :
    OpensUnsigned w := by
  cases h with
  | number x => exact ⟨_, _, rfl, by simp⟩
  | constant hc => exact ⟨_, _, rfl, by simp⟩
  | call hf hargs harity => exact ⟨_, _, rfl, by simp⟩
  | group he => exact ⟨_, _, rfl, by simp⟩

/-- A power opens with its base, and so with no sign. -/
theorem Power.opensUnsigned {w : List Token} {e : Expr} {n : Nat} (h : Power w e n) :
    OpensUnsigned w := by
  cases h with
  | primary hp => exact hp.opensUnsigned
  | pow hp hu => exact hp.opensUnsigned.append _

/-- An operand opens with a sign or with a primary. -/
theorem Unary.opens {w : List Token} {e : Expr} {n : Nat} (h : Unary w e n) : Opens w := by
  cases h with
  | negate hu => exact ⟨_, _, rfl, by simp⟩
  | plus hu => exact ⟨_, _, rfl, by simp⟩
  | power hp => exact hp.opensUnsigned.opens

/-- A product opens with its first factor. -/
theorem Term.opens {w : List Token} {e : Expr} {n : Nat} : Term w e n → Opens w
  | .unary h => h.opens
  | .mul h _ => h.opens.append _
  | .div h _ => h.opens.append _

/-- An expression opens with its first summand. -/
theorem Expression.opens {w : List Token} {e : Expr} {n : Nat} : Expression w e n → Opens w
  | .term h => h.opens
  | .add h _ => h.opens.append _
  | .sub h _ => h.opens.append _

/-! ### The end of the formula -/

mutual

/-- **The end of the formula is no part of an expression.** -/
theorem Expression.eof_notMem {w : List Token} {e : Expr} {n : Nat} :
    Expression w e n → .eof ∉ w
  | .term h => h.eof_notMem
  | .add hl hr | .sub hl hr => by simp [hl.eof_notMem, hr.eof_notMem]

/-- The end of the formula is not among the tokens of a product. -/
theorem Term.eof_notMem {w : List Token} {e : Expr} {n : Nat} : Term w e n → .eof ∉ w
  | .unary h => h.eof_notMem
  | .mul hl hr | .div hl hr => by simp [hl.eof_notMem, hr.eof_notMem]

/-- The end of the formula is not among the tokens of an operand with signs. -/
theorem Unary.eof_notMem {w : List Token} {e : Expr} {n : Nat} : Unary w e n → .eof ∉ w
  | .negate h | .plus h => by simp [h.eof_notMem]
  | .power h => h.eof_notMem

/-- The end of the formula is not among the tokens of a power. -/
theorem Power.eof_notMem {w : List Token} {e : Expr} {n : Nat} : Power w e n → .eof ∉ w
  | .primary h => h.eof_notMem
  | .pow hl hr => by simp [hl.eof_notMem, hr.eof_notMem]

/-- The end of the formula is not among the tokens of a primary. -/
theorem Primary.eof_notMem {w : List Token} {e : Expr} {n : Nat} : Primary w e n → .eof ∉ w
  | .number _ | .constant _ => by simp
  | .call _ hargs _ => by simp [hargs.eof_notMem]
  | .group h => by simp [h.eof_notMem]

/-- The end of the formula is not among the tokens of arguments. -/
theorem Arguments.eof_notMem {w : List Token} {es : List Expr} {n : Nat} :
    Arguments w es n → .eof ∉ w
  | .none => List.not_mem_nil
  | .some he hes => by simp [he.eof_notMem, hes.eof_notMem]

/-- The end of the formula is not among the tokens of the arguments behind the first one. -/
theorem Further.eof_notMem {w : List Token} {es : List Expr} {n : Nat} :
    Further w es n → .eof ∉ w
  | .none => List.not_mem_nil
  | .comma he hes => by simp [he.eof_notMem, hes.eof_notMem]

end

/-- So cutting off the end of the formula leaves an expression whole. -/
theorem Expression.takeWhile_ne_eof {w : List Token} {e : Expr} {n : Nat} (h : Expression w e n) :
    w.takeWhile (· ≠ .eof) = w := by
  rw [List.takeWhile_eq_self_iff]
  rintro t ht
  simpa using ne_of_mem_of_not_mem ht h.eof_notMem

end Grammar

end Reckoner
