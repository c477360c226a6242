import Mathlib
import Reckoner.Proofs.Parsing.Atoms
import Reckoner.Proofs.Scanning.Delimiters
import Reckoner.Proofs.Scanning.Spans
import Reckoner.Proofs.Stages

/-!
# Arguments Written Out

In a formula that has a value, the placeholders may be written out: each one, wherever it occurs, as
a numeral in parentheses for the absolute value of its argument, with a minus sign in front of the
numeral if the argument is negative. The value stays the same. A placeholder is one operand, and so
is a pair of parentheses: the spelling in between is scanned as before, since a parenthesis ends
every token just as the dollar sign did, and operators beside it do not reach into it.

Main definitions:

* `respell`: a formula with other spellings for its lexemes;
* `Lexeme.WrittenOut`: the spelling of a lexeme where placeholders are written out.

Main results:

* `exists_respellFrom`: how a formula with its placeholders written out is scanned;
* `written_out_arguments_keep_value`: it has the same value.
-/

namespace Reckoner

/-! ### Other spellings -/

/-- The text of a formula from the byte offset `start` on, with other spellings for its lexemes;
what is between them stays. -/
def respellFrom (formula : String) (spelling : Lexeme → String) :
    (start : Nat) → (lexemes : List Lexeme) → String
  | _, [] => ""
  | start, l :: lexemes =>
    String.Pos.Raw.extract formula ⟨start⟩ ⟨l.start⟩ ++ spelling l ++
      respellFrom formula spelling l.stop lexemes

/-- A formula with other spellings for its lexemes. Lexemes in two places may differ in their
spellings. -/
def respell (formula : String) (spelling : Lexeme → String) (lexemes : List Lexeme) : String :=
  respellFrom formula spelling 0 lexemes

/-- The text of a number that is written out: a numeral of its absolute value in parentheses, with a
minus sign in front if the number is negative, which negative zero is. -/
inductive AtomText (x : Binary64) : String → Prop
  | unsigned {w : List Char} : x.isNegative = false → Spells (.number x.abs) w →
      AtomText x ("(" ++ String.ofList w ++ ")")
  | negative {w : List Char} : x.isNegative = true → Spells (.number x.abs) w →
      AtomText x ("(-" ++ String.ofList w ++ ")")

/-- The spelling of a lexeme where placeholders are **written out**: other lexemes keep theirs. -/
inductive Lexeme.WrittenOut (names : List String) (args : List Binary64) (l : Lexeme) :
    String → Prop
  | placeholder {name : String} {x : Binary64} {s : String} : l.token = .placeholder name →
      args[names.idxOf name]? = some x → AtomText x s → l.WrittenOut names args s
  | other : (∀ name, l.token ≠ .placeholder name) → l.WrittenOut names args l.spelling

/-- A lexeme that is no placeholder is written out as it is spelled. -/
theorem Lexeme.WrittenOut.eq_spelling {names : List String} {args : List Binary64} {l : Lexeme}
    {s : String} (h : l.WrittenOut names args s) (hl : ∀ name, l.token ≠ .placeholder name) :
    s = l.spelling := by
  cases h with
  | placeholder ht _ _ => exact absurd ht (hl _)
  | other _ => rfl

/-! ### Scanning what is written out -/

/-- The second text is scanned to tokens with some numbers written out, wherever it stands, and it
is the same as the first one up to a delimiter. -/
structure Rescans (text text' : List Char) (tokens : List Token) : Prop where
  same : SameUpToDelimiter text text'
  scanned : ∀ offset, ∃ lexemes, Scanned offset text' lexemes ∧
    Expands tokens (lexemes.map Lexeme.token)

namespace Rescans

variable {text text' : List Char} {tokens : List Token}

/-- At the end of both texts there is the end of the formula. -/
theorem done : Rescans [] [] [.eof] where
  same := ⟨[], [], [], rfl, rfl, by simp [Apart]⟩
  scanned offset := ⟨_, .done offset, .keep _ .nil⟩

/-- A blank is kept, and skipped in both texts. -/
theorem blank (h : Rescans text text' tokens) {c : Char} (hc : isBlank c) :
    Rescans (c :: text) (c :: text') tokens where
  same := h.same.append_left [c]
  scanned offset := by
    obtain ⟨ls, hls, htokens⟩ := h.scanned (offset + c.utf8Size)
    exact ⟨ls, .blank hc hls, htokens⟩

/-- A token that is kept is the longest one still. -/
theorem keep (h : Rescans text text' tokens) {t : Token} {w : List Char}
    (hlongest : Longest t w (w ++ text)) : Rescans (w ++ text) (w ++ text') (t :: tokens) where
  same := h.same.append_left w
  scanned offset := by
    obtain ⟨ls, hls, htokens⟩ := h.scanned (offset + byteSize w)
    exact ⟨_, .token (hlongest.of_sameUpToDelimiter h.same) hls, .keep t htokens⟩

/-- A numeral in front of a closing parenthesis. -/
theorem exists_scanned_numeral (h : Rescans text text' tokens) {y : Binary64} {w : List Char}
    (hw : Spells (.number y) w) (offset : Nat) :
    ∃ ls us, Scanned offset (w ++ ([')'] ++ text')) ls ∧
      ls.map Lexeme.token = .number y :: .closeParen :: us ∧ Expands tokens us := by
  obtain ⟨ls, hls, htokens⟩ := h.scanned (offset + byteSize w + byteSize [')'])
  exact ⟨_, _, .token (hw.longest (apart_closeParen text'))
    (.token (longest_symbol rfl (by decide) _) hls), rfl, htokens⟩

/-- A number that is written out is scanned to its tokens. -/
theorem atom (h : Rescans text text' tokens) {x : Binary64} {s : String} (hs : AtomText x s)
    (w : List Char) : Rescans (w ++ text) (s.toList ++ text') (.number x :: tokens) where
  same := by
    -- It opens with a parenthesis, which ends the token in front of it.
    refine .of_apart (fun c hc => ?_) _
    obtain rfl : '(' = c := by cases hs <;> simpa using hc
    exact delimits_of_ne (by decide) (by decide)
  scanned offset := by
    cases hs with
    | @unsigned v hsign hv =>
      obtain ⟨ls, us, hls, htokens, hus⟩ := h.exists_scanned_numeral hv (offset + byteSize ['('])
      have htext : ("(" ++ String.ofList v ++ ")").toList ++ text' =
          ['('] ++ (v ++ ([')'] ++ text')) := by simp
      rw [htext]
      refine ⟨_, .token (longest_symbol rfl (by decide) _) hls, ?_⟩
      have hatom := Expands.atom x hus
      rw [atomTokens, hsign] at hatom
      rw [List.map_cons, htokens]
      exact hatom
    | @negative v hsign hv =>
      obtain ⟨ls, us, hls, htokens, hus⟩ :=
        h.exists_scanned_numeral hv (offset + byteSize ['('] + byteSize ['-'])
      have htext : ("(-" ++ String.ofList v ++ ")").toList ++ text' =
          ['('] ++ (['-'] ++ (v ++ ([')'] ++ text'))) := by simp
      rw [htext]
      refine ⟨_, .token (longest_symbol rfl (by decide) _)
        (.token (longest_symbol rfl (by decide) _) hls), ?_⟩
      have hatom := Expands.atom x hus
      rw [atomTokens, hsign] at hatom
      rw [List.map_cons, List.map_cons, htokens]
      exact hatom

end Rescans

section

variable {formula : String} {spelling : Lexeme → String} {names : List String}
  {args : List Binary64} {offset : Nat} {before gap text : List Char} {lexemes : List Lexeme}
  {tokens : List Token}

/-- A lexeme that is written out and the token that it is bound to. -/
theorem Rescans.lexeme {text' w : List Char} {t u : Token} (h : Rescans text text' tokens)
    (hlongest : Longest t w (w ++ text)) (hbound : t.BoundTo names args u) {s : String}
    (hs : Lexeme.WrittenOut names args ⟨t, String.ofList w, offset⟩ s) :
    Rescans (w ++ text) (s.toList ++ text') (u :: tokens) := by
  cases hs with
  | placeholder ht hx hs =>
    obtain rfl : t = _ := ht
    cases hbound with
    | placeholder hy =>
      obtain rfl := Option.some.inj (hx.symm.trans hy)
      exact h.atom hs w
    | other hne => exact absurd rfl (hne _)
  | other hne =>
    cases hbound with
    | placeholder _ => exact absurd rfl (hne _)
    | other _ =>
      rw [String.toList_ofList]
      exact h.keep hlongest

/-- **How a formula with its placeholders written out is scanned**: the text from a place on, where
`gap` is what was skipped since the last lexeme. -/
theorem exists_respellFrom (h : Scanned offset text lexemes)
    (hformula : formula.toList = before ++ gap ++ text)
    (hoffset : offset = byteSize (before ++ gap))
    (hspelling : ∀ l ∈ lexemes, l.WrittenOut names args (spelling l))
    (hbound : List.Forall₂ (Token.BoundTo names args) (lexemes.map Lexeme.token) tokens) :
    ∃ text', (respellFrom formula spelling (byteSize before) lexemes).toList = gap ++ text' ∧
      Rescans text text' tokens := by
  -- Induction on the scan: `before` ends with the last token, and `gap` has been skipped since.
  induction h generalizing before gap tokens with
  | done offset =>
    obtain ⟨u, us, htu, hus, rfl⟩ := List.forall₂_cons_left_iff.1 hbound
    cases hus
    have hempty : spelling ⟨.eof, "", offset⟩ = "" :=
      (hspelling _ (List.mem_singleton_self _)).eq_spelling (by simp)
    obtain rfl : u = .eof := by
      cases htu
      rfl
    refine ⟨[], ?_, .done⟩
    rw [respellFrom, respellFrom, hempty, String.append_empty, String.append_empty, hoffset,
      toList_extract_gap hformula, List.append_nil]
  | @blank offset c text lexemes hc _ ih =>
    have hformula' : formula.toList = before ++ (gap ++ [c]) ++ text := by simp [hformula]
    have hoffset' : offset + c.utf8Size = byteSize (before ++ (gap ++ [c])) := by
      simp [hoffset, Nat.add_assoc]
    obtain ⟨text', htext', hrescans⟩ := ih hformula' hoffset' hspelling hbound
    exact ⟨c :: text', by simp [htext'], hrescans.blank hc⟩
  | @token offset t w text lexemes hlongest _ ih =>
    obtain ⟨u, us, htu, hus, rfl⟩ := List.forall₂_cons_left_iff.1 hbound
    obtain ⟨hs, hspelling'⟩ := List.forall_mem_cons.1 hspelling
    have hformula' : formula.toList = (before ++ gap ++ w) ++ [] ++ text := by simp [hformula]
    have hstop : offset + byteSize w = byteSize ((before ++ gap ++ w) ++ []) := by
      simp [hoffset, Nat.add_assoc]
    obtain ⟨text', htext', hrescans⟩ := ih hformula' hstop hspelling' hus
    refine ⟨_, ?_, hrescans.lexeme hlongest htu hs⟩
    rw [List.append_nil] at hstop
    rw [respellFrom, stop_ofList, hstop, String.toList_append, String.toList_append, htext',
      hoffset, toList_extract_gap hformula]
    simp

end

/-! ### Formulas -/

section

variable {formula : String} {args : List Binary64} {lexemes : List Lexeme} {tokens : List Token}
  {spelling : Lexeme → String}

/-- A formula with its placeholders written out is scanned to tokens with numbers written out. -/
theorem exists_scan_respell (hscan : scan formula = .ok lexemes)
    (hbind : bindPlaceholders (lexemes.map Lexeme.token) args = .ok tokens)
    (hspelling : ∀ l ∈ lexemes,
      l.WrittenOut (placeholderNames (lexemes.map Lexeme.token)) args (spelling l)) :
    ∃ ls, scan (respell formula spelling lexemes) = .ok ls ∧
      Expands tokens (ls.map Lexeme.token) := by
  have hscanned := scanFrom_eq_ok_iff.1 hscan
  have hformula : formula.toList = [] ++ [] ++ formula.toList := rfl
  obtain ⟨text', htext', hrescans⟩ := exists_respellFrom hscanned hformula rfl hspelling
    (bindPlaceholders_eq_ok_iff.1 hbind).2
  obtain ⟨ls, hls, htokens⟩ := hrescans.scanned 0
  refine ⟨ls, ?_, htokens⟩
  rw [scan, respell]
  rw [byteSize_nil, List.nil_append] at htext'
  rw [htext', hls.scanFrom_eq]

end

/-- **Arguments may be written out.** A formula that has a value has the same value, whatever the
arguments are then, when each placeholder is written out as a numeral in parentheses, two more
levels are allowed, and it is not too long: a negative argument is not taken apart by the operators
beside it. -/
theorem written_out_arguments_keep_value (limits limits' : Limits) (formula : String)
    (args args' : List Binary64) (x : Binary64) (lexemes : List Lexeme)
    (spelling : Lexeme → String) (hvalue : evaluate limits formula args = .ok x)
    (hscan : scan formula = .ok lexemes)
    (hspelling : ∀ l ∈ lexemes,
      l.WrittenOut (placeholderNames (lexemes.map Lexeme.token)) args (spelling l))
    (hlength : (respell formula spelling lexemes).length ≤ limits'.maxLength)
    (hdepth : limits.maxDepth + 2 ≤ limits'.maxDepth) :
    evaluate limits' (respell formula spelling lexemes) args' = .ok x := by
  obtain ⟨-, -, lexemes', tokens, e, hscan', hbind, hparse, heval⟩ := evaluate_eq_ok_iff.1 hvalue
  obtain rfl := Except.ok.inj (hscan.symm.trans hscan')
  obtain ⟨ls, hls, htokens⟩ := exists_scan_respell hscan hbind hspelling
  have hself : bindPlaceholders (ls.map Lexeme.token) args' = .ok (ls.map Lexeme.token) :=
    bindPlaceholders_eq_self (fun name =>
      htokens.placeholder_notMem (placeholder_notMem_of_bindPlaceholders hbind name)) _
  have hexpands : Expands ((spell tokens lexemes).map Spelled.token)
      ((spell (ls.map Lexeme.token) ls).map Spelled.token) := by
    rwa [map_token_spell (length_of_bindPlaceholders hbind),
      map_token_spell (length_of_bindPlaceholders hself)]
  obtain ⟨e', hparse', hpreserves⟩ := Expr.exists_parse_of_expands hparse hexpands hdepth
  exact evaluate_eq_ok_iff.2 ⟨isBlankText_eq_false_of_parse hls hparse' hself, hlength, ls, _, e',
    hls, hself, hparse', hpreserves x heval⟩

/-- The square of a negative argument, which is taken from a number. -/
theorem written_out_arguments_keep_value_square :
    evaluate ⟨6, 1⟩ "2-$x^2" [.ofInt (-3)] = .ok (.ofInt (-7)) ∧
    evaluate ⟨8, 3⟩ "2-(-3)^2" [] = .ok (.ofInt (-7)) := by
  have hvalue : evaluate ⟨6, 1⟩ "2-$x^2" [.ofInt (-3)] = .ok (.ofInt (-7)) := by
    decide +kernel
  have hscan : scan "2-$x^2" = .ok [⟨.number (.ofInt 2), "2", 0⟩, ⟨.operator .sub, "-", 1⟩,
      ⟨.placeholder "x", "$x", 2⟩, ⟨.operator .pow, "^", 4⟩, ⟨.number (.ofInt 2), "2", 5⟩,
      ⟨.eof, "", 6⟩] := by
    decide +kernel
  have hnumeral : Spells (.number (Binary64.ofInt (-3)).abs) ['3'] := by
    have hthree : (Binary64.ofInt (-3)).abs = (Numeral.mk ['3'] none none).value := by
      decide +kernel
    rw [hthree]
    exact .number ⟨by simp, by simp, by simp, by simp⟩
  have hatom : AtomText (.ofInt (-3)) "(-3)" := .negative (by decide +kernel) hnumeral
  have htext : respell "2-$x^2" (fun l => if l.token = .placeholder "x" then "(-3)" else l.spelling)
      [⟨.number (.ofInt 2), "2", 0⟩, ⟨.operator .sub, "-", 1⟩, ⟨.placeholder "x", "$x", 2⟩,
        ⟨.operator .pow, "^", 4⟩, ⟨.number (.ofInt 2), "2", 5⟩, ⟨.eof, "", 6⟩] = "2-(-3)^2" := by
    decide +kernel
  refine ⟨hvalue, ?_⟩
  rw [← htext]
  refine written_out_arguments_keep_value ⟨6, 1⟩ ⟨8, 3⟩ _ _ [] _ _ _ hvalue hscan (fun l hl => ?_)
    (by rw [htext]; decide) (by decide)
  simp only [List.mem_cons, List.not_mem_nil, or_false] at hl
  obtain rfl | rfl | rfl | rfl | rfl | rfl := hl
  case inr.inr.inl => exact .placeholder rfl rfl hatom
  all_goals exact .other (by simp)

end Reckoner
