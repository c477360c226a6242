import Mathlib
import Reckoner.Formula
import Reckoner.Proofs.Binding
import Reckoner.Proofs.Scanning.LetterCase

/-!
# The Case of Letters

Letters may be written in either case wherever they are not in the name of a placeholder: functions
and constants are looked up without regard to case, and so is the mark of an exponent. Two formulas
that differ in no more go through all stages in step, with the same value or an error of the same
kind; the error may quote a name in another case. Only ASCII letters have a case: a name with
another letter is that of no function and of no constant.

Main results:

* `Function.ofName?_congr`, `Constant.ofName?_congr`: names are looked up without regard to case;
* `Correspondence.letterCase`: two formulas that differ in the case of names are parsed in step;
* `evaluate_agree_of_recases`: the outcome of a formula in another case;
* `letter_case_is_irrelevant`: all of it.
-/

namespace Reckoner

/-! ### Names -/

section

variable {s s' : String}

/-- Texts are the same but for case if their characters are. -/
theorem sameButCase_iff : sameButCase s s' ↔ SameLetters s.toList s'.toList :=
  beq_iff_eq

/-- **Functions are looked up without regard to case.** -/
theorem Function.ofName?_congr (h : sameButCase s s') :
    Function.ofName? s = Function.ofName? s' := by
  rw [sameButCase, beq_iff_eq] at h
  simp only [Function.ofName?, sameButCase, h]

/-- **Constants are looked up without regard to case.** -/
theorem Constant.ofName?_congr (h : sameButCase s s') :
    Constant.ofName? s = Constant.ofName? s' := by
  rw [sameButCase, beq_iff_eq] at h
  simp only [Constant.ofName?, sameButCase, h]

/-- Whether a character is one of ASCII. -/
def isAscii (c : Char) : Bool :=
  c.toNat < 128

/-- What is the same as an ASCII text but for the case of letters is ASCII text. -/
theorem all_isAscii_of_sameButCase (h : sameButCase s s') (hs : s.toList.all isAscii) :
    s'.toList.all isAscii := by
  have halpha : ∀ c : Char, c.isAlpha → isAscii c = true := by
    intro c hc
    have hrange := isNameStart_iff_toNat.1 (isNameStart_of_isAlpha hc)
    rw [isAscii, decide_eq_true_eq]
    omega
  rw [List.all_eq_true] at hs ⊢
  exact ((sameButCase_iff.1 h).forall_mem_iff halpha).1 hs

/-- **A name is ASCII text.** -/
theorem all_isAscii_of_isName (h : isName s) : s.toList.all isAscii := by
  refine List.all_eq_true.2 fun c hc => ?_
  have hchar := isNameChar_of_isName h c hc
  rw [isNameChar_iff, isNameStart_iff_toNat, Char.isDigit_iff_toNat] at hchar
  have hnine : '9'.toNat = 57 := rfl
  rw [isAscii, decide_eq_true_eq]
  omega

/-- **Names of functions are ASCII text.** -/
theorem Function.ofName?_eq_none (h : s.toList.all isAscii = false) :
    Function.ofName? s = none := by
  cases hf : Function.ofName? s with
  | none => rfl
  | some f =>
    have hname := Function.ofName?_eq_some_iff.1 hf
    rw [all_isAscii_of_sameButCase hname (by cases f <;> decide)] at h
    cases h

/-- **Names of constants are ASCII text.** -/
theorem Constant.ofName?_eq_none (h : s.toList.all isAscii = false) :
    Constant.ofName? s = none := by
  cases hc : Constant.ofName? s with
  | none => rfl
  | some c =>
    have hname := Constant.ofName?_eq_some_iff.1 hc
    rw [all_isAscii_of_sameButCase hname (by cases c <;> decide)] at h
    cases h

end

/-! ### Binding -/

/-- **The placeholders take the same arguments**, or the same one has none. -/
theorem bindFrom_agree (args : List Binary64) (seen : List String) {ts ts' : List Token}
    (h : List.Forall₂ Token.SameButCase ts ts') :
    Agree (fun _ => False) Eq (List.Forall₂ Token.SameButCase) (bindFrom args seen ts)
      (bindFrom args seen ts') := by
  induction h generalizing seen with
  | nil => exact .ok .nil
  | @cons t t' ts ts' ht _ ih =>
    by_cases hname : ∃ name, t = .placeholder name
    · obtain ⟨name, rfl⟩ := hname
      obtain ⟨-⟩ := ht
      simp only [bindFrom]
      cases args[seen.idxOf name]? with
      | none => exact .error rfl
      | some x => exact (ih _).bind fun _ _ _ hts => .ok (.cons (.self _) hts)
    · have hname' : ∀ name, t' ≠ .placeholder name := by
        cases ht with
        | self => exact not_exists.1 hname
        | name _ => simp
      rw [bindFrom_of_ne (not_exists.1 hname), bindFrom_of_ne hname']
      exact (ih seen).bind fun _ _ _ hts => .ok (.cons ht hts)

/-! ### Parsing -/

/-- Two readings of tokens that differ in the **case of names**. -/
def Correspondence.letterCase : Correspondence where
  token t t' := t.token.SameButCase t'.token
  expr := Eq
  error err err' := err.kind = err'.kind
  stop _ := False
  alike := by
    rintro ⟨t, _⟩ ⟨t', _⟩ ht
    cases ht with
    | self =>
      exact .self (fun _ => rfl) (fun _ => .refl fun _ _ => rfl) (fun _ => .refl fun _ _ => rfl)
        fun _ _ => rfl
    | @name s s' hs =>
      refine .name ?_ ?_
      · rw [Reader.calledFunction, Reader.calledFunction, Function.ofName?_congr hs,
          Constant.ofName?_congr hs]
        cases Function.ofName? s' with
        | some f => exact .ok rfl
        | none => cases Constant.ofName? s' <;> exact .error rfl
      · rw [Reader.namedConstant, Reader.namedConstant, Function.ofName?_congr hs,
          Constant.ofName?_congr hs]
        cases Constant.ofName? s' with
        | some c => exact .ok rfl
        | none => cases Function.ofName? s' <;> exact .error rfl
  congruence := Expr.congruence_eq
  fault _ := rfl
  operandExpected _ := rfl
  closeExpected _ := rfl
  trailing _ := rfl

/-- Tokens that are the same but for case are spelled by tokens that are read alike, whatever the
spellings are. -/
theorem tokens_letterCase_spell {tokens tokens' : List Token} {ls ls' : List Lexeme}
    (h : List.Forall₂ Token.SameButCase tokens tokens') (hls : ls.length = ls'.length) :
    Correspondence.letterCase.Tokens (spell tokens ls) (spell tokens' ls') := by
  induction h generalizing ls ls' with
  | nil => exact .nil
  | cons ht _ ih =>
    cases ls with
    | nil =>
      obtain rfl := List.length_eq_zero_iff.1 hls.symm
      exact .nil
    | cons l ls =>
      cases ls' with
      | nil => cases hls
      | cons l' ls' => exact .cons ht (ih (Nat.succ.inj hls))

/-! ### Formulas -/

section

variable {limits : Limits} {formula formula' : String}

/-- **A formula in another case is scanned in step.** -/
theorem scan_agree (h : Recases formula.toList formula'.toList) :
    Agree (fun _ => False) Eq (List.Forall₂ Lexeme.SameButCase) (scan formula) (scan formula') :=
  scanFrom_agree 0 h

/-- The case of letters does not make a formula blank. -/
theorem isBlankText_eq_of_sameLetters (h : SameLetters formula.toList formula'.toList) :
    isBlankText formula = isBlankText formula' := by
  rw [Bool.eq_iff_iff, isBlankText, isBlankText, List.all_eq_true, List.all_eq_true]
  exact h.forall_mem_iff fun _ => isBlank_eq_false_of_isAlpha

/-- **A formula in another case has the same value**, or fails with an error of the same kind. -/
theorem evaluate_agree_of_recases (h : Recases formula.toList formula'.toList)
    (args : List Binary64) :
    Agree (fun _ => False) (fun err err' => err.kind = err'.kind) Eq (evaluate limits formula args)
      (evaluate limits formula' args) := by
  have hlength : formula.length = formula'.length := h.letters.length_eq
  have hkind : ∀ err err' : FormulaError, err = err' → err.kind = err'.kind := fun _ _ => congrArg _
  rw [evaluate, evaluate, isBlankText_eq_of_sameLetters h.letters, hlength]
  split_ifs with hblank hlong
  · exact .error rfl
  · exact .error rfl
  · refine ((scan_agree h).imp_error hkind).bind fun ls ls' _ hls => ?_
    have htokens : List.Forall₂ Token.SameButCase (ls.map Lexeme.token) (ls'.map Lexeme.token) := by
      rw [List.forall₂_map_left_iff, List.forall₂_map_right_iff]
      exact hls.imp fun _ _ => Lexeme.SameButCase.token
    refine ((bindFrom_agree args [] htokens).imp_error hkind).bind fun tokens tokens' _ hbound => ?_
    have hparse := Correspondence.letterCase.parse_agree_self (d := limits.maxDepth) rfl
      (tokens_letterCase_spell hbound hls.length_eq) fun _ => rfl
    refine hparse.bind ?_
    rintro e _ - rfl
    exact .refl fun _ _ => rfl

end

/-- **The case of letters is irrelevant** outside of placeholders. A formula in another case is
scanned in step: both fail at the same character and place, or both are scanned to lexemes at the
same places, which are the same but for the case of names. Whatever the arguments and the limits
are, both have the same value, or both fail with an error of the same kind. No other letters than
those of ASCII have a case: a text with a character that is not of ASCII is no name in a formula,
and that of no function and no constant. -/
theorem letter_case_is_irrelevant :
    (∀ formula formula' : String, Recases formula.toList formula'.toList →
      ((∃ c offset, scan formula = .error (.unexpectedChar c offset) ∧
          scan formula' = .error (.unexpectedChar c offset)) ∨
        ∃ ls ls', scan formula = .ok ls ∧ scan formula' = .ok ls' ∧
          List.Forall₂ Lexeme.SameButCase ls ls') ∧
      ∀ (limits : Limits) (args : List Binary64),
        (∀ x, evaluate limits formula args = .ok x ↔ evaluate limits formula' args = .ok x) ∧
        ∀ err, evaluate limits formula args = .error err →
          ∃ err', evaluate limits formula' args = .error err' ∧ err'.kind = err.kind) ∧
    ∀ name : String, (∃ c ∈ name.toList, isAscii c = false) →
      isName name = false ∧ Function.ofName? name = none ∧ Constant.ofName? name = none := by
  constructor
  · intro formula formula' h
    constructor
    · rcases (scan_agree h).error_or_ok with ⟨err, _, hscan, hscan', rfl⟩ | hlexemes
      · obtain ⟨_, _, c, _, -, -, rfl⟩ := scan_eq_error_iff.1 hscan
        exact .inl ⟨_, _, hscan, hscan'⟩
      · exact .inr hlexemes
    · intro limits args
      rcases (evaluate_agree_of_recases h args).error_or_ok with
        ⟨err, err', herr, herr', hkind⟩ | ⟨x, _, hx, hx', rfl⟩
      · rw [herr, herr']
        simpa using hkind.symm
      · rw [hx, hx']
        simp
  · rintro name ⟨c, hc, hascii⟩
    have hall : name.toList.all isAscii = false := List.all_eq_false.2 ⟨c, hc, by simp [hascii]⟩
    refine ⟨?_, Function.ofName?_eq_none hall, Constant.ofName?_eq_none hall⟩
    by_contra hname
    rw [all_isAscii_of_isName (by simpa using hname)] at hall
    cases hall

/-- Letters of a function, of the mark of an exponent and of a constant in the other case, and a
placeholder between them; and the sign of the unit named after Kelvin, which looks like a letter of
ASCII. -/
theorem letter_case_is_irrelevant_exponent :
    Recases "SQRT($Ab)*2E1+pi".toList "sqrt($Ab)*2e1+PI".toList ∧
    (∃ ls ls', scan "SQRT($Ab)*2E1+pi" = .ok ls ∧ scan "sqrt($Ab)*2e1+PI" = .ok ls' ∧
      List.Forall₂ Lexeme.SameButCase ls ls') ∧
    (∀ x, evaluate {} "SQRT($Ab)*2E1+pi" [.ofInt 4] = .ok x ↔
      evaluate {} "sqrt($Ab)*2e1+PI" [.ofInt 4] = .ok x) ∧
    isName "\u212a" = false ∧ Function.ofName? "\u212a" = none ∧
      Constant.ofName? "\u212a" = none := by
  have hbehind : Recases (")*2E1+pi".toList ++ []) (")*2e1+PI".toList ++ []) :=
    Recases.nil.letters_append (by decide +kernel) (by decide +kernel)
  have hname : "Ab".toList.all isNameChar := by decide
  have hplaceholder := hbehind.placeholder_append (List.all_eq_true.1 hname) (by rintro c ⟨⟩; rfl)
  have hrecases : Recases "SQRT($Ab)*2E1+pi".toList "sqrt($Ab)*2e1+PI".toList :=
    hplaceholder.letters_append (by decide +kernel : SameLetters "SQRT(".toList "sqrt(".toList)
      (by decide +kernel)
  obtain ⟨hscan, hvalue⟩ := letter_case_is_irrelevant.1 _ _ hrecases
  refine ⟨hrecases, ?_, (hvalue _ _).1, letter_case_is_irrelevant.2 "\u212a" ?_⟩
  · rcases hscan with ⟨c, offset, herr, -⟩ | hlexemes
    · have hok : failure? (scan "SQRT($Ab)*2E1+pi") = none := by decide +kernel
      rw [herr] at hok
      cases hok
    · exact hlexemes
  · exact ⟨'\u212a', by decide +kernel, by decide +kernel⟩

end Reckoner
