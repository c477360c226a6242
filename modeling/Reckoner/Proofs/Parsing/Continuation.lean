import Mathlib
import Reckoner.Proofs.Parsing.Plain

/-!
# Errors and What Follows Them

Tokens are read from the left, and an error is about the first one that is out of place. Given more
tokens behind those it had, a reader does as before up to where it ran out of them: an error that
was found earlier is found again, whatever follows. Only a name and an opening parenthesis are read
with a look at the token behind them, so neither of them may be the last one.

Main definitions:

* `Settled`: tokens whose last one means the same whatever follows it;
* `RanOut`: a reading that came to the end of the tokens;
* `Prolongs`: what a reading of some tokens has to do with one of more tokens.

Main results:

* `Reader.unary_steady`: the reader of signed operands does as before when more tokens follow;
* `errors_hold_whatever_follows`: an error of the parser stays the same when more tokens follow.
-/

namespace Reckoner

/-! ### Tokens that are cut off -/

/-- Tokens are **settled** if the last one is no opening parenthesis and no name. -/
def Settled (ts : List Spelled) : Prop :=
  ∀ t ∈ ts.getLast?, t.token ≠ .openParen ∧ ∀ name, t.token ≠ .name name

section

variable {t : Spelled} {ts us : List Spelled}

/-- What is behind a token is settled if all is. -/
theorem Settled.of_cons (h : Settled (t :: ts)) : Settled ts := by
  intro u hu
  refine h u ?_
  rw [Option.mem_def] at hu ⊢
  rw [List.getLast?_cons, hu, Option.getD_some]

/-- An opening parenthesis or a name is followed by a token. -/
theorem Settled.exists_cons (h : Settled (t :: ts))
    (ht : t.token = .openParen ∨ ∃ name, t.token = .name name) : ∃ u vs, ts = u :: vs := by
  cases ts with
  | cons u vs => exact ⟨u, vs, rfl⟩
  | nil =>
    obtain ⟨hopen, hname⟩ := h t rfl
    rcases ht with ht | ⟨name, ht⟩
    · exact absurd ht hopen
    · exact absurd ht (hname name)

end

/-! ### Readings of more tokens -/

/-- The faults that tokens are missing at the end. -/
def GrammarFault.AtEnd : GrammarFault → Prop
  | operandMissing | unclosed _ => True
  | _ => False

variable {α β : Type}

/-- A reading **ran out** of tokens: there are none left, or some are missing. -/
inductive RanOut : Except FormulaError (α × List Spelled) → Prop
  | ok (a : α) : RanOut (.ok (a, []))
  | error {fault : GrammarFault} : fault.AtEnd → RanOut (.error (.grammar fault))

/-- A reading **prolongs** another one if the tokens `us` are behind those of the other one: they
are left as well, or the error is the same, or the other one ran out of tokens, which says
nothing. -/
inductive Prolongs (us : List Spelled) : Except FormulaError (α × List Spelled) →
    Except FormulaError (α × List Spelled) → Prop
  | ok (a : α) {rest : List Spelled} :
      Settled rest → Prolongs us (.ok (a, rest)) (.ok (a, rest ++ us))
  | error (err : FormulaError) : Prolongs us (.error err) (.error err)
  | ranOut {x y : Except FormulaError (α × List Spelled)} : RanOut x → Prolongs us x y

section

variable {us : List Spelled} {x y : Except FormulaError (α × List Spelled)}
  {f g : α × List Spelled → Except FormulaError (β × List Spelled)}

/-- A step behind a reading that ran out runs out, if it does so where no tokens are left. -/
theorem RanOut.bind (h : RanOut x) (hf : ∀ a, RanOut (f (a, []))) : RanOut (x >>= f) := by
  cases h with
  | ok a => exact hf a
  | error hfault => exact .error hfault

/-- Steps that prolong each other do so behind readings that do, if they run out of tokens where
there are none. -/
theorem Prolongs.bind (h : Prolongs us x y) (hnil : ∀ a, RanOut (f (a, [])))
    (hfg : ∀ a rest, x = .ok (a, rest) → Settled rest →
      Prolongs us (f (a, rest)) (g (a, rest ++ us))) : Prolongs us (x >>= f) (y >>= g) := by
  cases h with
  | ok a hrest => exact hfg a _ rfl hrest
  | error err => exact .error err
  | ranOut hx => exact .ranOut (hx.bind hnil)

end

namespace Reader

/-- A reader is **steady** if it does as before when more tokens follow. -/
def Steady (reader : Reader Expr) : Prop :=
  ∀ ⦃ts us : List Spelled⦄, Settled ts → Prolongs us (plain (reader ts)) (plain (reader (ts ++ us)))

variable {ts us : List Spelled}

/-! ### Chains -/

/-- A chain goes on in the same way when more tokens follow, up to where the tokens ended. -/
theorem chainFrom_prolongs {operator? : Token → Option Operator} {item : Reader Expr}
    (hitem : Steady item) {left : Expr} (hts : Settled ts) :
    Prolongs us (plain (chainFrom operator? item left ts))
      (plain (chainFrom operator? item left (ts ++ us))) := by
  -- Every round of the chain leaves fewer tokens.
  obtain ⟨len, hlen⟩ : ∃ n, ts.length = n := ⟨_, rfl⟩
  induction len using Nat.strong_induction_on generalizing ts left with
  | _ len ih =>
    cases ts with
    | nil =>
      rw [plain_chainFrom_nil]
      exact .ranOut (.ok left)
    | cons t ts =>
      rw [List.cons_append]
      cases hop : operator? t.token with
      | none =>
        rw [plain_chainFrom_of_none hop, plain_chainFrom_of_none hop]
        exact .ok left hts
      | some op =>
        rw [plain_chainFrom_of_some hop, plain_chainFrom_of_some hop]
        refine (hitem hts.of_cons).bind (fun right => ?_) fun right rest hright hrest => ?_
        · rw [plain_chainFrom_nil]
          exact .ok _
        · have hlt : rest.length < ts.length := length_lt_of_plain hright
          rw [List.length_cons] at hlen
          exact ih rest.length (by omega) hrest rfl

/-- A chain of steady items is steady. -/
theorem chain_steady {operator? : Token → Option Operator} {item : Reader Expr}
    (hitem : Steady item) : Steady (chain operator? item) := by
  intro ts us hts
  rw [plain_chain, plain_chain]
  refine (hitem hts).bind (fun left => ?_) fun left rest _ hrest => chainFrom_prolongs hitem hrest
  rw [plain_chainFrom_nil]
  exact .ok left

/-- An expression with steady operands is steady. -/
theorem expression_steady {operand : Reader Expr} (h : Steady operand) :
    Steady (expression operand) :=
  chain_steady (chain_steady h)

/-! ### Parentheses and calls -/

/-- A step behind a closing parenthesis is not taken where there is none. -/
theorem closing_bind_prolongs {construct : Construct} {a : α}
    {f : α × List Spelled → Except FormulaError (β × List Spelled)} (hts : Settled ts)
    (hf : ∀ rest, Settled rest → Prolongs us (f (a, rest)) (f (a, rest ++ us))) :
    Prolongs us (plain (closing construct a ts) >>= f)
      (plain (closing construct a (ts ++ us)) >>= f) := by
  cases ts with
  | nil => exact .ranOut (.error trivial)
  | cons t ts =>
    rw [List.cons_append, plain_closing_cons, plain_closing_cons]
    split_ifs
    · exact hf ts hts.of_cons
    · exact .error _

/-- The end of a construct is read in the same way when more tokens follow. -/
theorem closing_prolongs {construct : Construct} {a : α} (hts : Settled ts) :
    Prolongs us (plain (closing construct a ts)) (plain (closing construct a (ts ++ us))) := by
  simpa using closing_bind_prolongs (f := .ok) hts fun rest hrest => .ok a hrest

/-- A group with steady content is read in the same way when more tokens follow. -/
theorem group_prolongs {content : Reader Expr} (h : Steady content) {t : Spelled}
    (hts : Settled (t :: ts)) :
    Prolongs us (plain (group content (t :: ts))) (plain (group content (t :: ts ++ us))) := by
  have hclose : OpensWith .closeParen (t :: ts ++ us) ↔ OpensWith .closeParen (t :: ts) := Iff.rfl
  rw [plain_group, plain_group, if_congr hclose rfl rfl]
  split_ifs
  · exact .error _
  · exact (h hts).bind (fun _ => .error trivial) fun _ _ _ hrest => closing_prolongs hrest

/-- Arguments behind the first one are read in the same way when more tokens follow. -/
theorem moreArgs_prolongs {argument : Reader Expr} (h : Steady argument) (hts : Settled ts) :
    Prolongs us (plain (moreArgs argument ts)) (plain (moreArgs argument (ts ++ us))) := by
  obtain ⟨len, hlen⟩ : ∃ n, ts.length = n := ⟨_, rfl⟩
  induction len using Nat.strong_induction_on generalizing ts with
  | _ len ih =>
    cases ts with
    | nil =>
      rw [plain_moreArgs_nil]
      exact .ranOut (.ok [])
    | cons t ts =>
      rw [List.cons_append, plain_moreArgs_cons, plain_moreArgs_cons]
      split_ifs
      · refine (h hts.of_cons).bind (fun arg => ?_) fun arg rest harg hrest => ?_
        · rw [plain_moreArgs_nil]
          exact .ok _
        · have hlt : rest.length < ts.length := length_lt_of_plain harg
          rw [List.length_cons] at hlen
          exact (ih rest.length (by omega) hrest rfl).bind (fun _ => .ok _)
            fun _ _ _ hrest' => .ok _ hrest'
      · exact .ok [] hts

/-- Arguments are read in the same way when more tokens follow, if there is a token to begin
with. -/
theorem args_prolongs {argument : Reader Expr} (h : Steady argument) {t : Spelled}
    (hts : Settled (t :: ts)) :
    Prolongs us (plain (args argument (t :: ts))) (plain (args argument (t :: ts ++ us))) := by
  have hclose : OpensWith .closeParen (t :: ts ++ us) ↔ OpensWith .closeParen (t :: ts) := Iff.rfl
  rw [plain_args, plain_args, if_congr hclose rfl rfl]
  split_ifs
  · exact .ok [] hts
  · refine (h hts).bind (fun arg => ?_) fun arg rest _ hrest => ?_
    · rw [plain_moreArgs_nil]
      exact .ok _
    · exact (moreArgs_prolongs h hrest).bind (fun _ => .ok _) fun _ _ _ hrest' => .ok _ hrest'

/-- A call is read in the same way when more tokens follow: the name is looked up before any of
them. -/
theorem call_prolongs {argument : Reader Expr} (h : Steady argument) (name : String) {t : Spelled}
    (hts : Settled (t :: ts)) :
    Prolongs us (plain (call argument name (t :: ts)))
      (plain (call argument name (t :: ts ++ us))) := by
  rw [plain_call, plain_call]
  cases calledFunction name with
  | error err => exact .error err
  | ok f =>
    refine (args_prolongs h hts).bind (fun _ => .error trivial) fun list rest _ hrest => ?_
    refine closing_bind_prolongs hrest fun rest' hrest' => ?_
    -- The arguments are counted whether tokens follow or not.
    dsimp only
    split_ifs
    · exact .ok _ hrest'
    · exact .error _

/-! ### Operands -/

/-- Behind a name there is a token already, which settles whether it is called. -/
theorem named_prolongs {argument : Reader Expr} (h : Steady argument) (name : String) {t : Spelled}
    (hts : Settled (t :: ts)) :
    Prolongs us (plain (named argument name (t :: ts)))
      (plain (named argument name (t :: ts ++ us))) := by
  rw [List.cons_append, plain_named_cons, plain_named_cons]
  split_ifs with hopen
  · obtain ⟨u, vs, rfl⟩ := hts.exists_cons (.inl hopen)
    exact call_prolongs h name hts.of_cons
  · cases namedConstant name with
    | error err => exact .error err
    | ok e => exact .ok e hts

/-- A primary is steady if what nests in it is. -/
theorem primary_steady {nested : Reader Expr} (h : Steady nested) : Steady (primary nested) := by
  intro ts us hts
  have hexpression := expression_steady h
  cases ts with
  | nil => exact .ranOut (.error trivial)
  | cons t ts =>
    obtain ⟨token, spelling⟩ := t
    rw [List.cons_append, plain_primary_cons, plain_primary_cons]
    cases token with
    | number x => exact .ok _ hts.of_cons
    | openParen =>
      obtain ⟨u, vs, rfl⟩ := hts.exists_cons (.inl rfl)
      exact group_prolongs hexpression hts.of_cons
    | name s =>
      obtain ⟨u, vs, rfl⟩ := hts.exists_cons (.inr ⟨s, rfl⟩)
      exact named_prolongs hexpression s hts.of_cons
    | placeholder | operator | closeParen | comma | eof => exact .error _

/-- What follows a base is read in the same way when more tokens follow. -/
theorem powerFrom_prolongs {nested : Reader Expr} (h : Steady nested) {base : Expr}
    (hts : Settled ts) :
    Prolongs us (plain (powerFrom nested base ts)) (plain (powerFrom nested base (ts ++ us))) := by
  cases ts with
  | nil => exact .ranOut (.ok base)
  | cons t ts =>
    rw [List.cons_append, plain_powerFrom_cons, plain_powerFrom_cons]
    split_ifs
    · exact (h hts.of_cons).bind (fun _ => .ok _) fun _ _ _ hrest => .ok _ hrest
    · exact .ok base hts

/-- A power is steady if its exponent is. -/
theorem power_steady {nested : Reader Expr} (h : Steady nested) : Steady (power nested) := by
  intro ts us hts
  rw [plain_power, plain_power]
  exact (primary_steady h hts).bind (fun base => .ok base) fun _ _ _ hrest =>
    powerFrom_prolongs h hrest

/-- An operand with signs is steady if what nests in it is. -/
theorem signed_steady {nested : Reader Expr} (h : Steady nested) : Steady (signed nested) := by
  intro ts us hts
  have hpower : Prolongs us (plain (power nested ts)) (plain (power nested (ts ++ us))) :=
    power_steady h hts
  cases ts with
  | nil => exact .ranOut (.error trivial)
  | cons t ts =>
    rw [List.cons_append] at hpower ⊢
    rw [plain_signed_cons, plain_signed_cons]
    split_ifs
    · exact (h hts.of_cons).bind (fun _ => .ok _) fun _ _ _ hrest => .ok _ hrest
    · exact h hts.of_cons
    · exact hpower

/-- **The reader of signed operands is steady**: where no level is left it refuses all tokens, and
each level is steady if the next one is. -/
theorem unary_steady (limit levels : Nat) : Steady (unary limit levels) := by
  induction levels with
  | zero => exact fun _ _ _ => .error _
  | succ levels ih => exact signed_steady ih

end Reader

/-! ### Whole formulas -/

/-- **Errors hold whatever follows.** Where tokens are refused, more tokens behind them, well-formed
or not, leave the error as it is, unless it is that the formula ends too early, without an operand
or with an open parenthesis. The last token must not be one that is read with a look at the next
one. -/
theorem errors_hold_whatever_follows (maxDepth : Nat) (ts us : List Spelled) (err : FormulaError)
    (hne : ts ≠ []) (heof : ∀ t ∈ ts, t.token ≠ .eof)
    (hlast : ∀ t ∈ ts.getLast?, t.token ≠ .openParen ∧ ∀ name, t.token ≠ .name name)
    (h : Expr.parse maxDepth ts = .error err) (hoperand : err ≠ .grammar .operandMissing)
    (hclose : ∀ construct, err ≠ .grammar (.unclosed construct)) :
    Expr.parse maxDepth (ts ++ us) = .error err := by
  have hkept : ∀ t ∈ ts, decide (t.token ≠ .eof) = true := fun t ht => decide_eq_true (heof t ht)
  have hbody : Expr.body ts = ts := List.takeWhile_eq_self_iff.2 hkept
  have hbody' : Expr.body (ts ++ us) = ts ++ Expr.body us := List.takeWhile_append_of_pos hkept
  rw [Expr.parse_eq_plain, hbody, if_neg hne] at h
  rw [Expr.parse_eq_plain, hbody', if_neg (by simp [hne])]
  have hprolongs : Prolongs (Expr.body us)
      (Reader.plain (Reader.expression (Reader.unary maxDepth (maxDepth + 1)) ts))
      (Reader.plain
        (Reader.expression (Reader.unary maxDepth (maxDepth + 1)) (ts ++ Expr.body us))) :=
    Reader.expression_steady (Reader.unary_steady _ _) hlast
  generalize Reader.plain (Reader.expression _ ts) = x at h hprolongs
  generalize Reader.plain (Reader.expression _ (ts ++ Expr.body us)) = y at hprolongs ⊢
  -- The longer reading fails alike, unless the shorter one ran out of tokens.
  cases hprolongs with
  | error => exact h
  | @ok e rest _ =>
    cases rest with
    | nil => cases h
    | cons t rest => exact h
  | ranOut hx =>
    cases hx with
    | ok e => cases h
    | @error fault hfault =>
      obtain rfl : FormulaError.grammar fault = err := Except.error.inj h
      cases fault with
      | operandMissing => exact absurd rfl hoperand
      | unclosed construct => exact absurd rfl (hclose construct)
      | _ => exact hfault.elim

/-- A call with too few arguments in front of more arguments, and of tokens that no formula has. -/
theorem errors_hold_whatever_follows_call :
    Expr.parse 1 ([.name "MAX", .openParen, .number .nan, .closeParen].map Spelled.ofToken) =
      .error (.grammar (.argumentCount .max 1)) ∧
    Expr.parse 1 ([.name "MAX", .openParen, .number .nan, .closeParen].map Spelled.ofToken ++
        [.comma, .number .nan, .closeParen, .eof, .openParen].map Spelled.ofToken) =
      .error (.grammar (.argumentCount .max 1)) := by
  have hfails : Expr.parse 1 ([.name "MAX", .openParen, .number .nan, .closeParen].map
      Spelled.ofToken) = .error (.grammar (.argumentCount .max 1)) := by
    cbv
  refine ⟨hfails,
    errors_hold_whatever_follows 1 _ _ _ (by simp) (by simp [Spelled.ofToken]) ?_ hfails
    (by simp) (by simp)⟩
  rintro t ht
  obtain rfl : Spelled.ofToken .closeParen = t := Option.some.inj ht
  exact ⟨by decide, fun name => Token.noConfusion⟩

end Reckoner
