import Mathlib
import Reckoner.Proofs.Quotation
import Reckoner.Proofs.Spacing

/-!
# Names of Placeholders

What the placeholders of a formula are called means nothing. With other names for them, different
ones for different placeholders, a formula is scanned to the same tokens but for these names, and
the placeholders take the same arguments, since these are given out by place. From there on names
only show where an error quotes a placeholder: then it quotes the new name.

Main definitions:

* `Token.rename`, `Lexeme.rename`: a token and its spelling with a placeholder renamed;
* `renamePlaceholders`: a formula with its placeholders renamed;
* `FormulaError.rename`: an error with the placeholder that it is about, or that it quotes, renamed.

Main results:

* `LaidOut.rename`: a formula with its placeholders renamed is scanned to its tokens, renamed;
* `bindPlaceholders_rename`: the placeholders take the same arguments;
* `evaluate_rename`: the outcome is the same but for the names in an error;
* `placeholder_names_are_irrelevant`: all of it.
-/

namespace Reckoner

/-! ### Other names -/

/-- A token with a placeholder renamed. -/
def Token.rename (r : String → String) : Token → Token
  | placeholder s => placeholder (r s)
  | t => t

/-- A lexeme with a placeholder renamed, in its spelling as well. -/
def Lexeme.rename (r : String → String) (l : Lexeme) : Lexeme :=
  match l.token with
  | .placeholder name => ⟨.placeholder (r name), "$" ++ r name, l.start⟩
  | _ => l

/-- A formula with its placeholders renamed; what is between its lexemes stays. -/
def renamePlaceholders (r : String → String) (formula : String) (lexemes : List Lexeme) : String :=
  layOut (gapsOf formula lexemes) (lexemes.map (Lexeme.rename r))

/-- A text that a message quotes, with a placeholder renamed. -/
def renameQuoted (r : String → String) (s : String) : String :=
  match s.toList with
  | '$' :: name => "$" ++ r (String.ofList name)
  | _ => s

/-- A fault with the placeholder renamed that it quotes. -/
def GrammarFault.rename (r : String → String) (fault : GrammarFault) : GrammarFault :=
  match fault.quoted? with
  | some s => fault.requote (renameQuoted r s)
  | none => fault

/-- An error with the placeholder renamed that it is about or that it quotes. -/
def FormulaError.rename (r : String → String) : FormulaError → FormulaError
  | missingArgument name index supplied => missingArgument (r name) index supplied
  | grammar fault => grammar (fault.rename r)
  | err => err

section

variable {r : String → String} {l : Lexeme} {t : Token}

/-- A token that is no placeholder keeps its name. -/
theorem Token.rename_of_ne (h : ∀ name, t ≠ .placeholder name) : t.rename r = t := by
  cases t with
  | placeholder name => exact absurd rfl (h name)
  | _ => rfl

/-- A renamed placeholder is spelled with its new name. -/
theorem Lexeme.rename_placeholder {name : String} (h : l.token = .placeholder name) :
    l.rename r = ⟨.placeholder (r name), "$" ++ r name, l.start⟩ := by
  rw [Lexeme.rename, h]

/-- What is no placeholder keeps its spelling. -/
theorem Lexeme.rename_of_ne (h : ∀ name, l.token ≠ .placeholder name) : l.rename r = l := by
  unfold Lexeme.rename
  split
  · next name hname => exact absurd hname (h name)
  · rfl

/-- The token of a renamed lexeme is the renamed token. -/
theorem Lexeme.token_rename : (l.rename r).token = l.token.rename r := by
  obtain ⟨t, spelling, start⟩ := l
  cases t <;> rfl

/-- The end of a formula stays what it is, and nothing else becomes it. -/
theorem Lexeme.spelled_rename_eq_eof_iff :
    (l.rename r).spelled = ⟨.eof, ""⟩ ↔ l.spelled = ⟨.eof, ""⟩ := by
  obtain ⟨t, spelling, start⟩ := l
  cases t <;> simp [Lexeme.rename, Lexeme.spelled]

/-- A fault that quotes nothing is not changed by new names. -/
theorem GrammarFault.rename_of_quoted?_eq_none {fault : GrammarFault} (h : fault.quoted? = none) :
    fault.rename r = fault := by
  rw [GrammarFault.rename, h]

/-- The spelling of a placeholder is quoted under its new name, and that of another token stays. -/
theorem Spells.renameQuoted_eq {w : List Char} (h : Spells t w) (start : Nat) :
    renameQuoted r (String.ofList w) = (Lexeme.rename r ⟨t, String.ofList w, start⟩).spelling := by
  by_cases hname : ∃ name, t = .placeholder name
  · obtain ⟨name, rfl⟩ := hname
    obtain ⟨-, rfl⟩ := spells_placeholder_iff.1 h
    rw [Lexeme.rename_placeholder rfl, renameQuoted, String.toList_ofList]
    simp only [String.ofList_toList]
  · have hne : ∀ name, t ≠ .placeholder name := not_exists.1 hname
    rw [Lexeme.rename_of_ne hne, renameQuoted, String.toList_ofList]
    split
    · exact absurd rfl (h.head?_ne_dollar hne)
    · rfl

end

/-! ### Scanning -/

/-- A delimiter is no character of a name. -/
theorem Delimits.isNameChar_eq_false {c : Char} (h : Delimits c) : isNameChar c = false := by
  by_contra hc
  have hspells : Spells (.name (String.ofList ['_', c])) ['_', c] :=
    .name rfl (List.forall_mem_singleton.2 (by simpa using hc))
  exact h hspells (List.mem_singleton_self c)

section

variable {r : String → String} {name : String} {text text' : List Char}

/-- A placeholder ends where its name does. -/
theorem longest_placeholder (hname : isName name) (htext : ∀ c ∈ text.head?, isNameChar c = false) :
    Longest (.placeholder name) ('$' :: name.toList) ('$' :: name.toList ++ text) := by
  obtain ⟨c, cs, hcs, hc, -⟩ := isName_iff.1 hname
  have hscan : scanName (name.toList ++ text) = name.toList :=
    takeWhile_append_stop (isNameChar_of_isName hname) htext
  rw [List.cons_append, ← Token.scan?_eq_some_iff]
  rw [hcs] at hscan ⊢
  rw [List.cons_append] at hscan ⊢
  rw [Token.scan?_dollar_cons, if_pos hc, hscan, ← hcs, String.ofList_toList]

/-- No name goes on behind a placeholder. -/
theorem Longest.isNameChar_eq_false {w : List Char}
    (h : Longest (.placeholder name) w (w ++ text)) :
    ∀ c ∈ text.head?, isNameChar c = false := by
  intro c hc
  by_contra hchar
  obtain ⟨text, rfl⟩ := List.head?_eq_some_iff.1 hc
  obtain ⟨hname, rfl⟩ := spells_placeholder_iff.1 h.spells
  obtain ⟨d, ds, hds, hd, hall⟩ := isName_iff.1 hname
  have hlonger :
      Spells (.placeholder (String.ofList (d :: (ds ++ [c])))) ('$' :: d :: (ds ++ [c])) := by
    refine .placeholder hd fun e he => ?_
    rcases List.mem_append.1 he with he | he
    · exact hall e he
    · rw [List.mem_singleton.1 he]
      simpa using hchar
  have hle := h.length_le hlonger (by simp [hds])
  simp [hds] at hle

/-- Texts that are the same up to a delimiter both go on without a name, if the first one does. -/
theorem SameUpToDelimiter.isNameChar_eq_false (h : SameUpToDelimiter text text')
    (htext : ∀ c ∈ text.head?, isNameChar c = false) : ∀ c ∈ text'.head?, isNameChar c = false := by
  obtain ⟨front, rest, rest', rfl, rfl, hrest⟩ := h
  intro c hc
  cases front with
  | nil => exact (hrest c hc).isNameChar_eq_false
  | cons d front => exact htext c hc

/-- **A formula with its placeholders renamed is scanned to its tokens, renamed.** -/
theorem LaidOut.rename {gaps : List String} {lexemes : List Lexeme} (h : LaidOut gaps lexemes)
    (hname : ∀ l ∈ lexemes, ∀ name, l.token = .placeholder name → isName (r name)) :
    LaidOut gaps (lexemes.map (Lexeme.rename r)) ∧
      SameUpToDelimiter (layOut gaps lexemes).toList
        (layOut gaps (lexemes.map (Lexeme.rename r))).toList := by
  induction h with
  | @done gap start hgap =>
    exact ⟨.done start hgap, _, [], [], (List.append_nil _).symm, (List.append_nil _).symm,
      by simp [Apart]⟩
  | @token gap gaps l lexemes hgap hlongest _ ih =>
    obtain ⟨hl, hname⟩ := List.forall_mem_cons.1 hname
    obtain ⟨hlaid, hsame⟩ := ih hname
    rw [List.map_cons, toList_layOut_cons, toList_layOut_cons]
    by_cases hplaceholder : ∃ name, l.token = .placeholder name
    · obtain ⟨name, ht⟩ := hplaceholder
      have hlongest' := longest_placeholder (hl name ht)
        (hsame.isNameChar_eq_false (Longest.isNameChar_eq_false (ht ▸ hlongest)))
      have hspelling : ("$" ++ r name).toList = '$' :: (r name).toList := by simp
      rw [Lexeme.rename_placeholder ht]
      refine ⟨.token hgap (by rwa [hspelling]) hlaid, gap.toList, _, _, rfl, rfl, ?_⟩
      rw [hspelling]
      exact (delimits_of_ne (by decide) (by decide)).apart _
    · rw [Lexeme.rename_of_ne (not_exists.1 hplaceholder)]
      exact ⟨.token hgap (hlongest.of_sameUpToDelimiter hsame) hlaid,
        (hsame.append_left _).append_left _⟩

end

/-! ### Binding -/

/-- The place of an element stays, if no other one becomes the same. -/
theorem idxOf_map_of_forall {r : String → String} {names : List String} {name : String}
    (h : ∀ a ∈ names, r a = r name → a = name) :
    (names.map r).idxOf (r name) = names.idxOf name := by
  induction names with
  | nil => rfl
  | cons a names ih =>
    obtain ⟨ha, hnames⟩ := List.forall_mem_cons.1 h
    rw [List.map_cons, List.idxOf_cons, List.idxOf_cons, ih hnames]
    have hiff : r a = r name ↔ a = name := ⟨ha, congrArg r⟩
    simp only [beq_eq_decide, hiff]

section

variable {r : String → String} {args : List Binary64} {seen : List String} {tokens : List Token}

/-- With names that stay distinct, binding gives the same numbers, and an error with the new
name. -/
theorem bindFrom_rename (h : Set.InjOn r {a | a ∈ namesFrom seen tokens}) :
    bindFrom args (seen.map r) (tokens.map (Token.rename r)) =
      (bindFrom args seen tokens).mapError (FormulaError.rename r) := by
  -- Distinct names stay distinct, and so keep their places among the names met so far.
  fun_induction bindFrom args seen tokens with
  | case1 => rfl
  | case2 seen name tokens index hnone =>
    have hindex : (seen.map r).idxOf (r name) = index :=
      idxOf_map_of_forall fun a ha hr => h (mem_namesFrom_iff.2 (.inl ha))
        (mem_namesFrom_iff.2 (.inr List.mem_cons_self)) hr
    simp only [List.map_cons, Token.rename, bindFrom, hindex, hnone]
    rfl
  | case3 seen name tokens index x hsome ih =>
    have hindex : (seen.map r).idxOf (r name) = index :=
      idxOf_map_of_forall fun a ha hr => h (mem_namesFrom_iff.2 (.inl ha))
        (mem_namesFrom_iff.2 (.inr List.mem_cons_self)) hr
    rw [namesFrom_placeholder] at h
    have hseen : (if index < seen.length then seen else seen ++ [name]).map r =
        if index < (seen.map r).length then seen.map r else seen.map r ++ [r name] := by
      rw [List.length_map, apply_ite (List.map r), List.map_append, List.map_singleton]
    simp only [List.map_cons, Token.rename, bindFrom, hindex, hsome]
    rw [← hseen, ih h]
    cases bindFrom args (if index < seen.length then seen else seen ++ [name]) tokens <;> rfl
  | case4 seen t tokens hother ih =>
    rw [namesFrom_of_ne hother] at h
    rw [List.map_cons, Token.rename_of_ne hother, bindFrom_of_ne hother, ih h]
    cases bindFrom args seen tokens <;> rfl

/-- **The placeholders take the same arguments**, or the same one has none. -/
theorem bindPlaceholders_rename (h : Set.InjOn r {a | a ∈ placeholderNames tokens}) :
    bindPlaceholders (tokens.map (Token.rename r)) args =
      (bindPlaceholders tokens args).mapError (FormulaError.rename r) := by
  rw [← namesFrom_nil_left] at h
  exact bindFrom_rename h

end

/-! ### Parsing -/

/-- Two readings of the same tokens, with **placeholders renamed** in their spellings. -/
def Correspondence.renamed (r : String → String) : Correspondence where
  token t t' := t'.token = t.token ∧ t'.spelling = renameQuoted r t.spelling
  expr := Eq
  error err err' := err' = err.rename r
  stop _ := False
  alike := by
    rintro ⟨_, spelling⟩ ⟨token, spelling'⟩ ⟨rfl, -⟩
    refine .self (fun _ => rfl) (fun _ => .refl fun err herr => ?_)
      (fun _ => .refl fun err herr => ?_) (fun _ _ => ?_)
    · rcases Reader.calledFunction_eq_error herr with rfl | rfl <;> rfl
    · rcases Reader.namedConstant_eq_error herr with ⟨f, rfl⟩ | rfl <;> rfl
    · rfl
  congruence := Expr.congruence_eq
  fault h := congrArg _ (GrammarFault.rename_of_quoted?_eq_none h.quoted?_eq_none).symm
  operandExpected h := by
    rw [h.2]
    rfl
  closeExpected h := by
    rw [h.2]
    rfl
  trailing h := by
    rw [h.2]
    rfl

/-- **No name is left in an expression**: an error of its evaluation has none to be renamed. -/
theorem mapError_rename_eval {maxDepth : Nat} {ts : List Spelled} {e : Expr}
    (h : Expr.parse maxDepth ts = .ok e) (r : String → String) :
    e.eval.mapError (FormulaError.rename r) = e.eval := by
  cases heval : e.eval with
  | ok x => rfl
  | error err =>
    obtain ⟨_, _, _, _, -, -, -, rfl⟩ := (Expr.callsAccepted_of_parse h).eval_eq_error_iff.1 heval
    rfl

section

variable {r : String → String} {limits : Limits} {formula : String} {args : List Binary64}
  {lexemes : List Lexeme}

/-- The spelling of a lexeme is quoted under its new name. -/
theorem renameQuoted_spelling (hscan : scan formula = .ok lexemes) {l : Lexeme} (hl : l ∈ lexemes) :
    renameQuoted r l.spelling = (l.rename r).spelling := by
  obtain ⟨spans, hreached, rfl⟩ := scan_eq_ok_iff.1 hscan
  rcases List.mem_append.1 hl with hl | hl
  · obtain ⟨_, _, -, -, hlongest⟩ := hreached.longest_of_mem hl
    have hquoted := hlongest.spells.renameQuoted_eq (r := r) l.start
    rwa [String.ofList_toList] at hquoted
  · rw [List.mem_singleton.1 hl]
    rfl

/-- Tokens correspond one to one to themselves with renamed spellings. -/
theorem tokens_spell_rename (hscan : scan formula = .ok lexemes) (tokens : List Token) :
    (Correspondence.renamed r).Tokens (spell tokens lexemes)
      (spell tokens (lexemes.map (Lexeme.rename r))) := by
  have hspelling : ∀ l ∈ lexemes, renameQuoted r l.spelling = (l.rename r).spelling :=
    fun l hl => renameQuoted_spelling hscan hl
  clear hscan
  induction tokens generalizing lexemes with
  | nil => exact .nil
  | cons t tokens ih =>
    cases lexemes with
    | nil => exact .nil
    | cons l lexemes =>
      obtain ⟨hl, hspelling⟩ := List.forall_mem_cons.1 hspelling
      exact .cons ⟨rfl, hl.symm⟩ (ih hspelling)

/-- **The parser builds the same expression**, or fails with the same error but for the placeholder
that it quotes. -/
theorem parse_rename (hscan : scan formula = .ok lexemes) (maxDepth : Nat) (tokens : List Token) :
    Expr.parse maxDepth (spell tokens (lexemes.map (Lexeme.rename r))) =
      (Expr.parse maxDepth (spell tokens lexemes)).mapError (FormulaError.rename r) := by
  have hagree := (Correspondence.renamed r).parse_agree_self (d := maxDepth) rfl
    (tokens_spell_rename hscan tokens) fun _ => rfl
  generalize Expr.parse maxDepth (spell tokens lexemes) = x at *
  generalize Expr.parse maxDepth (spell tokens (lexemes.map (Lexeme.rename r))) = y at *
  cases hagree with
  | ok he => exact congrArg Except.ok he.symm
  | error herr => exact congrArg Except.error herr
  | stopped hstop => exact hstop.elim

/-! ### Formulas -/

/-- A formula with its placeholders renamed is scanned to its lexemes, renamed, at other places. -/
theorem exists_scan_rename (hscan : scan formula = .ok lexemes)
    (hname : ∀ name ∈ placeholderNames (lexemes.map Lexeme.token), isName (r name)) :
    ∃ ls, scan (renamePlaceholders r formula lexemes) = .ok ls ∧
      ls.map Lexeme.spelled = (lexemes.map (Lexeme.rename r)).map Lexeme.spelled := by
  refine ((laidOut_gapsOf hscan).1.rename fun l hl name ht => hname name ?_).1.exists_scan
  exact mem_placeholderNames_iff.2 (ht ▸ List.mem_map_of_mem hl)

/-- Renamed lexemes have renamed tokens, wherever they stand. -/
theorem map_token_of_spelled_rename {ls : List Lexeme}
    (h : ls.map Lexeme.spelled = (lexemes.map (Lexeme.rename r)).map Lexeme.spelled) :
    ls.map Lexeme.token = (lexemes.map Lexeme.token).map (Token.rename r) := by
  rw [map_token_congr h, List.map_map, List.map_map]
  exact List.map_congr_left fun l _ => Lexeme.token_rename

/-- **The outcome is the same but for the names in an error.** -/
theorem evaluate_rename (hscan : scan formula = .ok lexemes)
    (hname : ∀ name ∈ placeholderNames (lexemes.map Lexeme.token), isName (r name))
    (hinj : Set.InjOn r {a | a ∈ placeholderNames (lexemes.map Lexeme.token)})
    (hlength : formula.length ≤ limits.maxLength)
    (hlength' : (renamePlaceholders r formula lexemes).length ≤ limits.maxLength) :
    evaluate limits (renamePlaceholders r formula lexemes) args =
      (evaluate limits formula args).mapError (FormulaError.rename r) := by
  obtain ⟨ls, hls, hspelled⟩ := exists_scan_rename hscan hname
  have hblank : isBlankText (renamePlaceholders r formula lexemes) = isBlankText formula := by
    rw [Bool.eq_iff_iff, isBlankText_eq_true_iff hls, isBlankText_eq_true_iff hscan, hspelled,
      List.map_map, List.map_eq_singleton_iff, List.map_eq_singleton_iff]
    exact exists_congr fun l => and_congr_right fun _ => Lexeme.spelled_rename_eq_eof_iff
  -- Stage by stage, with new names in the errors and the same values.
  cases hformula : isBlankText formula with
  | true =>
    rw [evaluate_of_isBlankText hformula, evaluate_of_isBlankText (hblank.trans hformula)]
    rfl
  | false =>
    rw [evaluate_of_length_le hformula hlength,
      evaluate_of_length_le (hblank.trans hformula) hlength', hscan, hls, ok_bind, ok_bind,
      map_token_of_spelled_rename hspelled, bindPlaceholders_rename hinj]
    cases bindPlaceholders (lexemes.map Lexeme.token) args with
    | error err => rfl
    | ok tokens =>
      have hparse := parse_rename (r := r) hscan limits.maxDepth tokens
      rw [← spell_congr hspelled] at hparse
      simp only [Except.mapError, ok_bind] at hparse ⊢
      rw [hparse]
      cases hstage : Expr.parse limits.maxDepth (spell tokens lexemes) with
      | error err => rfl
      | ok e => exact (mapError_rename_eval hstage r).symm

end

/-! ### What is quoted -/

section

variable {r : String → String} {fault : GrammarFault} {name : String}

/-- A placeholder that is quoted is quoted under its new name. -/
theorem GrammarFault.rename_eq_requote (h : fault.quoted? = some ("$" ++ name)) :
    fault.rename r = fault.requote ("$" ++ r name) := by
  have hchars : ("$" ++ name).toList = '$' :: name.toList := by simp
  rw [GrammarFault.rename, h]
  simp only [renameQuoted, hchars, String.ofList_toList]

/-- Another token is quoted as it was. -/
theorem GrammarFault.rename_eq_self (h : ∀ name, fault.quoted? ≠ some ("$" ++ name)) :
    fault.rename r = fault := by
  have hrequote : ∀ s, fault.quoted? = some s → fault.requote s = fault := by
    intro s hs
    cases fault <;> cases hs <;> rfl
  cases hquoted : fault.quoted? with
  | none => exact GrammarFault.rename_of_quoted?_eq_none hquoted
  | some s =>
    have hs : renameQuoted r s = s := by
      unfold renameQuoted
      split
      · next cs hcs =>
        refine absurd hquoted ?_
        rw [← String.ofList_toList (s := s), hcs, ← List.singleton_append, String.ofList_append]
        exact h (String.ofList cs)
      · rfl
    rw [GrammarFault.rename, hquoted]
    simp only [hs, hrequote s hquoted]

end

/-- **The names of placeholders are irrelevant.** A formula that is scanned is its lexemes with its
gaps between them. With other names for its placeholders, different ones for different placeholders,
it is scanned to the same tokens, renamed. Whatever the arguments and the limits are, as long as
neither is too long, it has the same value or fails with the same error, but for names: the
placeholder without an argument has its new name, and so has one that is quoted. Names that differ,
if only in the case of their letters, have different places. -/
theorem placeholder_names_are_irrelevant (r : String → String) (formula : String)
    (lexemes : List Lexeme) (hscan : scan formula = .ok lexemes)
    (hname : ∀ name ∈ placeholderNames (lexemes.map Lexeme.token), isName (r name))
    (hinj : ∀ a ∈ placeholderNames (lexemes.map Lexeme.token),
      ∀ b ∈ placeholderNames (lexemes.map Lexeme.token), r a = r b → a = b) :
    layOut (gapsOf formula lexemes) lexemes = formula ∧
    (∃ ls, scan (renamePlaceholders r formula lexemes) = .ok ls ∧
      ls.map Lexeme.token = (lexemes.map Lexeme.token).map (Token.rename r)) ∧
    (∀ (limits : Limits) (args : List Binary64), formula.length ≤ limits.maxLength →
      (renamePlaceholders r formula lexemes).length ≤ limits.maxLength →
      (∀ x, evaluate limits (renamePlaceholders r formula lexemes) args = .ok x ↔
        evaluate limits formula args = .ok x) ∧
      (∀ name index supplied,
        evaluate limits formula args = .error (.missingArgument name index supplied) →
          evaluate limits (renamePlaceholders r formula lexemes) args =
            .error (.missingArgument (r name) index supplied)) ∧
      (∀ fault, evaluate limits formula args = .error (.domain fault) →
        evaluate limits (renamePlaceholders r formula lexemes) args = .error (.domain fault)) ∧
      ∀ fault, evaluate limits formula args = .error (.grammar fault) →
        evaluate limits (renamePlaceholders r formula lexemes) args =
          .error (.grammar (fault.rename r))) ∧
    (∀ fault : GrammarFault,
      (∀ name, fault.quoted? ≠ some ("$" ++ name)) → fault.rename r = fault) ∧
    (∀ (fault : GrammarFault) (name : String), fault.quoted? = some ("$" ++ name) →
      ∃ before after : String, fault.text = before ++ ("$" ++ name) ++ after ∧
        (fault.rename r).text = before ++ ("$" ++ r name) ++ after) ∧
    ∀ a ∈ placeholderNames (lexemes.map Lexeme.token),
      ∀ b ∈ placeholderNames (lexemes.map Lexeme.token), a ≠ b →
        (placeholderNames (lexemes.map Lexeme.token)).idxOf a ≠
          (placeholderNames (lexemes.map Lexeme.token)).idxOf b := by
  refine ⟨(laidOut_gapsOf hscan).2, ?_, fun limits args hlength hlength' => ?_,
    fun _ => GrammarFault.rename_eq_self, fun fault name hquoted => ?_, fun a ha b _ hne => ?_⟩
  · obtain ⟨ls, hls, hspelled⟩ := exists_scan_rename hscan hname
    exact ⟨ls, hls, map_token_of_spelled_rename hspelled⟩
  · rw [evaluate_rename hscan hname (fun a ha b hb => hinj a ha b hb) hlength hlength']
    -- New names show in errors only, and each error is read off what it becomes.
    refine ⟨fun x => ?_, fun name index supplied h => ?_, fun fault h => ?_, fun fault h => ?_⟩
    · cases evaluate limits formula args <;> simp [Except.mapError]
    all_goals
      rw [h]
      rfl
  · obtain ⟨before, after, -, htext, hrequote⟩ := GrammarFault.text_of_quoted? hquoted
    refine ⟨before, after, htext, ?_⟩
    rw [GrammarFault.rename_eq_requote hquoted, hrequote]
  · exact fun hindex => hne ((List.idxOf_inj ha).1 hindex)

/-- Two names that differ in the case of their letter, changed for one another: the arguments stay
where they are. -/
theorem placeholder_names_are_irrelevant_case :
    evaluate {} "$x-$X" [.ofInt 5, .ofInt 3] = .ok (.ofInt 2) ∧
    evaluate {} "$X-$x" [.ofInt 5, .ofInt 3] = .ok (.ofInt 2) ∧
    evaluate {} "$x-$X" [.ofInt 5] = .error (.missingArgument "X" 1 1) ∧
    evaluate {} "$X-$x" [.ofInt 5] = .error (.missingArgument "x" 1 1) := by
  have hvalue : evaluate {} "$x-$X" [.ofInt 5, .ofInt 3] = .ok (.ofInt 2) := by decide +kernel
  have hmissing : evaluate {} "$x-$X" [.ofInt 5] = .error (.missingArgument "X" 1 1) := by
    decide +kernel
  have hscan : scan "$x-$X" = .ok [⟨.placeholder "x", "$x", 0⟩, ⟨.operator .sub, "-", 2⟩,
      ⟨.placeholder "X", "$X", 3⟩, ⟨.eof, "", 5⟩] := by
    decide +kernel
  have htext : renamePlaceholders (fun name => if name = "x" then "X" else "x") "$x-$X"
      [⟨.placeholder "x", "$x", 0⟩, ⟨.operator .sub, "-", 2⟩, ⟨.placeholder "X", "$X", 3⟩,
        ⟨.eof, "", 5⟩] = "$X-$x" := by
    decide +kernel
  obtain ⟨-, -, hsame, -⟩ := placeholder_names_are_irrelevant
    (fun name => if name = "x" then "X" else "x") _ _ hscan (by decide) (by decide)
  rw [htext] at hsame
  exact ⟨hvalue, ((hsame {} _ (by decide) (by decide)).1 _).2 hvalue, hmissing,
    (hsame {} _ (by decide) (by decide)).2.1 _ _ _ hmissing⟩

end Reckoner
