import Mathlib
import Reckoner.Proofs.ArgumentValues
import Reckoner.Proofs.Decimal.Written
import Reckoner.Proofs.Joined
import Reckoner.Proofs.Parsing.Correspondence
import Reckoner.Proofs.Stages

/-!
# Messages on One Line

Every message about a formula is one line, whatever the formula is. A message has words of its own,
numbers and names of functions, and what it quotes of the formula: a character, the name of a
placeholder, or a token as it is spelled. What is quoted is never blank: a scanner that is stuck has
no blank in front of it, and no token has a blank in it. A line break is a blank.

Main definitions:

* `FormulaError.quotes`: the parts of a formula that the message of an error quotes;
* `Correspondence.quoting`: the tokens of a reading have spellings and names with a property.

Main results:

* `FormulaError.newline_notMem_message`: a message is one line if what it quotes is;
* `Expr.quotes_of_parse`: what the parser quotes are spellings and names of tokens;
* `isBlank_of_evaluate_eq_error`: what the error of a formula quotes is not blank, anywhere;
* `newline_notMem_message_of_evaluate`: the message of a formula is one line.
-/

namespace Reckoner

/-! ### What a message is made of -/

/-- The digits of a number are one line. -/
@[simp] theorem newline_notMem_toDigits (n : Nat) : '\n' ∉ Nat.toDigits 10 n := by
  intro hmem
  exact absurd (Nat.isDigit_of_mem_toDigits (by decide) (by decide) hmem) (by decide)

/-- A double-precision number is written on one line, also NaN and the infinities. -/
@[simp] theorem Binary64.newline_notMem_text (x : Binary64) : '\n' ∉ x.text.toList := by
  cases hx : x.isFinite with
  | false =>
    cases x with
    | nan => decide
    | inf negative => cases negative <;> decide
    | finite _ _ _ => cases hx
  | true =>
    obtain ⟨n, hn, htext, -⟩ := Layout.readable_plain.exists_numeral_magnitude hx
    rw [text, toList_write hx, ← htext, List.mem_append, not_or]
    refine ⟨by cases x.isNegative <;> decide, fun hmem => ?_⟩
    exact absurd (hn.isBlank_eq_false _ hmem) (by decide)

/-- The name of a function is one line. -/
@[simp] theorem Function.newline_notMem_name (f : Function) : '\n' ∉ f.name.toList := by
  cases f <;> decide

/-- The name of an operation is one line. -/
@[simp] theorem Operator.newline_notMem_operationName (op : Operator) :
    '\n' ∉ op.operationName.toList := by
  cases op <;> decide

/-- What a message says about the number of arguments is one line. -/
@[simp] theorem Arity.newline_notMem_text (a : Arity) : '\n' ∉ a.text.toList := by
  cases a <;> dsimp only [text, toString] <;> simp

/-- What a message says about what is to be closed is one line. -/
@[simp] theorem Construct.newline_notMem_text (c : Construct) : '\n' ∉ c.text.toList := by
  cases c <;> dsimp only [text, toString] <;> simp

/-- What a message says about an operation, with its operands, is one line. -/
@[simp] theorem Operation.newline_notMem_text (o : Operation) : '\n' ∉ o.text.toList := by
  cases o with
  | call f args =>
    have htexts : ∀ s ∈ args.map Binary64.text, ∀ c ∈ s.toList, c ≠ '\n' :=
      List.forall_mem_map.2 fun x _ c hc => ne_of_mem_of_not_mem hc x.newline_notMem_text
    have hargs : '\n' ∉ (", ".intercalate (args.map Binary64.text)).toList := fun hmem =>
      forall_mem_intercalate (by simp) htexts _ hmem rfl
    dsimp only [text, toString]
    simp [hargs, -String.toList_intercalate]
  | literal | binary _ _ _ =>
    dsimp only [text, toString]
    simp

/-! ### What a message quotes -/

/-- The parts of a formula that the wording of a fault in its shape quotes. -/
def GrammarFault.quotes : GrammarFault → List String
  | trailing s | operandExpected s | closeExpected _ s => [s]
  | unknownName s | unboundPlaceholder s | constantCalled s => [s]
  | _ => []

/-- The parts of a formula that the message of an error quotes. -/
def FormulaError.quotes : FormulaError → List String
  | unexpectedChar c _ => [c.toString]
  | missingArgument name _ _ => [name]
  | grammar fault => fault.quotes
  | domain (.unknownFunction name) => [name]
  | _ => []

/-- The wording of a fault is one line if what it quotes is. -/
theorem GrammarFault.newline_notMem_text {fault : GrammarFault}
    (h : ∀ s ∈ fault.quotes, '\n' ∉ s.toList) : '\n' ∉ fault.text.toList := by
  cases fault <;> dsimp only [text, toString] <;> simp_all [quotes]

/-- **A message is a line** if what it quotes is. -/
theorem FormulaError.newline_notMem_message {err : FormulaError}
    (h : ∀ s ∈ err.quotes, '\n' ∉ s.toList) : '\n' ∉ err.message.toList := by
  cases err with
  | grammar fault =>
    have hfault : '\n' ∉ fault.text.toList := fault.newline_notMem_text h
    dsimp only [message, toString]
    simp [hfault]
  | domain fault =>
    cases fault <;> dsimp only [message, DomainFault.text, toString] <;> simp_all [quotes]
  | empty | unexpectedChar _ _ | missingArgument _ _ _ =>
    dsimp only [message, toString]
    simp_all [quotes]

/-! ### What is quoted -/

/-- A reading of tokens with itself, whose spellings and names have a **property**, as has what is
quoted. -/
def Correspondence.quoting (p : String → Prop) : Correspondence where
  token t t' := t = t' ∧ p t.spelling ∧
    ∀ name, t.token = .name name ∨ t.token = .placeholder name → p name
  expr := Eq
  error err err' := err = err' ∧ ∀ s ∈ err.quotes, p s
  stop _ := False
  alike := by
    rintro ⟨token, spelling⟩ _ ⟨rfl, -, hname⟩
    cases token with
    | number x => exact .number rfl
    | name name =>
      refine .name (.refl fun err herr => ⟨rfl, ?_⟩) (.refl fun err herr => ⟨rfl, ?_⟩)
      · rcases Reader.calledFunction_eq_error herr with rfl | rfl <;>
          exact List.forall_mem_singleton.2 (hname name (.inl rfl))
      · rcases Reader.namedConstant_eq_error herr with ⟨f, rfl⟩ | rfl
        · exact List.forall_mem_nil _
        · exact List.forall_mem_singleton.2 (hname name (.inl rfl))
    | placeholder name =>
      exact .placeholder ⟨rfl, List.forall_mem_singleton.2 (hname name (.inr rfl))⟩
    | operator op => exact .operator op
    | openParen => exact .openParen
    | closeParen => exact .closeParen
    | comma => exact .comma
    | eof => exact .eof
  congruence := Expr.congruence_eq
  fault {fault} h := by
    refine ⟨rfl, ?_⟩
    cases fault with
    | unmatchedClose | emptyGroup | operandMissing | unclosed _ | argumentCount _ _ =>
      exact List.forall_mem_nil _
    | _ => exact h.elim
  operandExpected h := ⟨h.1 ▸ rfl, List.forall_mem_singleton.2 h.2.1⟩
  closeExpected h := ⟨h.1 ▸ rfl, List.forall_mem_singleton.2 h.2.1⟩
  trailing h := ⟨h.1 ▸ rfl, List.forall_mem_singleton.2 h.2.1⟩

/-- **The parser quotes spellings and names of tokens.** -/
theorem Expr.quotes_of_parse {p : String → Prop} {maxDepth : Nat} {ts : List Spelled}
    {err : FormulaError}
    (hts : ∀ t ∈ ts, p t.spelling ∧
      ∀ name, t.token = .name name ∨ t.token = .placeholder name → p name)
    (h : parse maxDepth ts = .error err) : ∀ s ∈ err.quotes, p s := by
  have htokens : (Correspondence.quoting p).Tokens ts ts :=
    List.forall₂_same.2 fun t ht => ⟨rfl, hts t ht⟩
  have hagree := (Correspondence.quoting p).parse_agree_self (d := maxDepth)
    ⟨rfl, List.forall_mem_nil _⟩ htokens fun _ => ⟨rfl, List.forall_mem_nil _⟩
  rw [h] at hagree
  cases hagree with
  | error herr => exact herr.2
  | stopped hstop => exact hstop.elim

section

variable {limits : Limits} {formula : String} {args : List Binary64} {lexemes : List Lexeme}
  {tokens : List Token}

/-- Neither the spelling of a token nor its name has a blank in it. -/
theorem isBlank_of_mem_scan (hscan : scan formula = .ok lexemes) {l : Lexeme} (hl : l ∈ lexemes) :
    (∀ c ∈ l.spelling.toList, isBlank c = false) ∧
      ∀ name, l.token = .name name ∨ l.token = .placeholder name →
        ∀ c ∈ name.toList, isBlank c = false := by
  obtain ⟨spans, hreached, rfl⟩ := scan_eq_ok_iff.1 hscan
  rcases List.mem_append.1 hl with hl | hl
  · obtain ⟨_, _, -, -, hlongest⟩ := hreached.longest_of_mem hl
    have hspells := hlongest.spells
    refine ⟨hspells.isBlank_eq_false, fun name hname c hc => ?_⟩
    have hname' : isName name := by
      rcases hname with hname | hname
      · exact (spells_name_iff.1 (hname ▸ hspells)).1
      · exact (spells_placeholder_iff.1 (hname ▸ hspells)).1
    exact isBlank_eq_false_of_isNameChar (isNameChar_of_isName hname' c hc)
  · rw [List.mem_singleton.1 hl]
    simp

/-- Nor has a token with a number bound to it, or with the name that it had before. -/
theorem isBlank_of_mem_spell (hscan : scan formula = .ok lexemes)
    (hbind : bindPlaceholders (lexemes.map Lexeme.token) args = .ok tokens) {t : Spelled}
    (ht : t ∈ spell tokens lexemes) : (∀ c ∈ t.spelling.toList, isBlank c = false) ∧
      ∀ name, t.token = .name name ∨ t.token = .placeholder name →
        ∀ c ∈ name.toList, isBlank c = false := by
  obtain ⟨i, hi, rfl⟩ := List.mem_iff_getElem.1 ht
  rw [spell, List.length_zipWith] at hi
  simp only [spell, List.getElem_zipWith]
  have hl : lexemes[i] ∈ lexemes := List.getElem_mem _
  obtain ⟨hspelling, hname⟩ := isBlank_of_mem_scan hscan hl
  refine ⟨hspelling, fun name htoken => ?_⟩
  have hbound := (List.forall₂_iff_get.1 (bindPlaceholders_eq_ok_iff.1 hbind).2).2 i
    (by rw [List.length_map]; omega) (by omega)
  simp only [List.get_eq_getElem, List.getElem_map] at hbound
  generalize tokens[i] = u at hbound htoken
  generalize lexemes[i].token = t at hbound hname
  cases hbound with
  | placeholder _ => rcases htoken with h | h <;> cases h
  | other _ => exact hname name htoken

/-- **What the error of a formula quotes is not blank**, anywhere. -/
theorem isBlank_of_evaluate_eq_error {err : FormulaError}
    (h : evaluate limits formula args = .error err) :
    ∀ s ∈ err.quotes, ∀ c ∈ s.toList, isBlank c = false := by
  cases hblank : isBlankText formula with
  | true =>
    rw [evaluate_of_isBlankText hblank] at h
    rw [← Except.error.inj h]
    exact List.forall_mem_nil _
  | false =>
    rcases Nat.lt_or_ge limits.maxLength formula.length with hlength | hlength
    · rw [evaluate_of_lt_length hblank hlength] at h
      rw [← Except.error.inj h]
      exact List.forall_mem_nil _
    rw [evaluate_of_length_le hblank hlength] at h
    -- The scanner quotes a character, binding a name, the parser names and spellings.
    rcases bind_eq_error_iff.1 h with hscan | ⟨lexemes, hscan, h⟩
    · obtain ⟨_, _, c, _, -, hstuck, rfl⟩ := scan_eq_error_iff.1 hscan
      simpa [FormulaError.quotes] using hstuck.1 c rfl
    rcases bind_eq_error_iff.1 h with hbind | ⟨tokens, hbind, h⟩
    · rcases Nat.lt_or_ge args.length (placeholderNames (lexemes.map Lexeme.token)).length with
        hlt | hle
      · rw [bindPlaceholders_eq_error hlt] at hbind
        rw [← Except.error.inj hbind]
        obtain ⟨l, hl, htoken⟩ :=
          List.mem_map.1 (mem_placeholderNames_iff.1 (List.getElem_mem hlt))
        exact List.forall_mem_singleton.2 ((isBlank_of_mem_scan hscan hl).2 _ (.inr htoken))
      · obtain ⟨bound, hbound, -⟩ := exists_bindPlaceholders_eq_ok hle
        rw [hbind] at hbound
        cases hbound
    rcases bind_eq_error_iff.1 h with hparse | ⟨e, hparse, heval⟩
    · exact Expr.quotes_of_parse (fun t ht => isBlank_of_mem_spell hscan hbind ht) hparse
    · obtain ⟨_, _, _, fault, -, -, hcause, rfl⟩ :=
        (Expr.callsAccepted_of_parse hparse).eval_eq_error_iff.1 heval
      cases fault with
      | unknownFunction name => exact absurd rfl (hcause.ne_unknownFunction name)
      | _ => exact List.forall_mem_nil _

/-- **The message of a formula is one line.** -/
theorem newline_notMem_message_of_evaluate {err : FormulaError}
    (h : evaluate limits formula args = .error err) : '\n' ∉ err.message.toList := by
  refine err.newline_notMem_message fun s hs hmem => ?_
  exact absurd (isBlank_of_evaluate_eq_error h s hs _ hmem) (by decide)

end

end Reckoner
