import Mathlib
import Reckoner.Proofs.Parsing.Rendering
import Reckoner.Proofs.Scanning.Delimiters
import Reckoner.Proofs.Scanning.Spans
import Reckoner.Proofs.Stages

/-!
# Composition

The value of a formula is settled by the values of its parts: two formulas in parentheses, with an
operator between them, have the value of the operator at their values. Each stage goes through the
parts side by side. A parenthesis ends every token, so they are scanned as they are by themselves;
where they have no name in common, the arguments of the first one come first and those of the second
one after them; and in parentheses either one is an operand, whatever its operators are.

Main definitions:

* `Lexed`: text with the tokens it is scanned to, wherever it stands;
* `ReadsAs`: a formula with the expression that its tokens build;
* `Operator.texts`: what an operator may be written as;
* `joined`: two formulas put together with an operator.

Main results:

* `Lexed.append`, `bindPlaceholders_append_append`: scanning and binding side by side;
* `ReadsAs.evaluate_eq`, `exists_readsAs`: a formula has the outcome of the expression that it reads
  as;
* `operators_compose`: a formula put together from two has the outcome of its operator.
-/

namespace Reckoner

/-! ### Scanning side by side -/

/-- Text is **lexed** to tokens: blanks are skipped and the longest token is emitted elsewhere. The
end of the formula is not among the tokens. -/
inductive Lexed : (text : List Char) → (tokens : List Token) → Prop
  | nil : Lexed [] []
  | blank {c : Char} {text : List Char} {tokens : List Token} : isBlank c → Lexed text tokens →
      Lexed (c :: text) tokens
  | token {t : Token} {w text : List Char} {tokens : List Token} : Longest t w (w ++ text) →
      Lexed text tokens → Lexed (w ++ text) (t :: tokens)

/-- What is scanned is lexed to the same tokens, with the end of the formula behind them. -/
theorem Scanned.exists_lexed {offset : Nat} {text : List Char} {lexemes : List Lexeme}
    (h : Scanned offset text lexemes) :
    ∃ tokens, Lexed text tokens ∧ lexemes.map Lexeme.token = tokens ++ [.eof] := by
  induction h with
  | done _ => exact ⟨[], .nil, rfl⟩
  | blank hc _ ih =>
    obtain ⟨tokens, hlexed, htokens⟩ := ih
    exact ⟨tokens, hlexed.blank hc, htokens⟩
  | token hlongest _ ih =>
    obtain ⟨tokens, hlexed, htokens⟩ := ih
    exact ⟨_, hlexed.token hlongest, congrArg _ htokens⟩

/-- What is lexed is scanned, from any offset. -/
theorem Lexed.exists_scanned {text : List Char} {tokens : List Token} (h : Lexed text tokens)
    (offset : Nat) :
    ∃ lexemes, Scanned offset text lexemes ∧ lexemes.map Lexeme.token = tokens ++ [.eof] := by
  induction h generalizing offset with
  | nil => exact ⟨_, .done offset, rfl⟩
  | @blank c _ _ hc _ ih =>
    obtain ⟨lexemes, hscanned, htokens⟩ := ih (offset + c.utf8Size)
    exact ⟨lexemes, .blank hc hscanned, htokens⟩
  | @token _ w _ _ hlongest _ ih =>
    obtain ⟨lexemes, hscanned, htokens⟩ := ih (offset + byteSize w)
    exact ⟨_, .token hlongest hscanned, congrArg _ htokens⟩

/-- A formula that is lexed to tokens is scanned to these tokens and the end. -/
theorem Lexed.exists_scan {formula : String} {tokens : List Token}
    (h : Lexed formula.toList tokens) :
    ∃ lexemes, scan formula = .ok lexemes ∧ lexemes.map Lexeme.token = tokens ++ [.eof] := by
  obtain ⟨lexemes, hscanned, htokens⟩ := h.exists_scanned 0
  exact ⟨lexemes, hscanned.scanFrom_eq, htokens⟩

/-- Blanks are skipped. -/
theorem Lexed.skip {gap text : List Char} {tokens : List Token} (hgap : ∀ c ∈ gap, isBlank c)
    (h : Lexed text tokens) : Lexed (gap ++ text) tokens := by
  induction gap with
  | nil => exact h
  | cons c gap ih =>
    obtain ⟨hc, hgap⟩ := List.forall_mem_cons.1 hgap
    exact .blank hc (ih hgap)

/-- The end of the formula has no text. -/
theorem Lexed.eof_notMem {text : List Char} {tokens : List Token} (h : Lexed text tokens) :
    .eof ∉ tokens := by
  induction h with
  | nil => exact List.not_mem_nil
  | blank _ _ ih => exact ih
  | token hlongest _ ih => simp [ih, hlongest.spells.ne_eof.symm]

/-- **Scanning side by side**: text and what is apart from it are lexed as they are by
themselves. -/
theorem Lexed.append {text rest : List Char} {tokens tokens' : List Token} (h : Lexed text tokens)
    (hapart : Apart rest) (hrest : Lexed rest tokens') :
    Lexed (text ++ rest) (tokens ++ tokens') := by
  induction h with
  | nil => exact hrest
  | blank hc _ ih => exact ih.blank hc
  | @token t w text tokens hlongest _ ih =>
    have hsame : SameUpToDelimiter text (text ++ rest) := ⟨text, [], rest, by simp, rfl, hapart⟩
    rw [List.append_assoc]
    exact ih.token (hlongest.of_sameUpToDelimiter hsame)

/-- A text in parentheses, with more behind it. -/
theorem Lexed.group {text rest : List Char} {tokens tokens' : List Token} (h : Lexed text tokens)
    (hrest : Lexed rest tokens') :
    Lexed (['('] ++ (text ++ ([')'] ++ rest)))
      (.openParen :: (tokens ++ .closeParen :: tokens')) := by
  have hclose : Lexed ([')'] ++ rest) (.closeParen :: tokens') :=
    hrest.token (longest_symbol rfl (by decide) rest)
  exact (h.append (apart_closeParen rest) hclose).token (longest_symbol rfl (by decide) _)

/-! ### Binding side by side -/

section

variable {names names' : List String} {args args' : List Binary64} {t u : Token}
  {tokens tokens' bound bound' : List Token}

/-- Names that are met first keep their places. -/
theorem Token.BoundTo.append_right (h : t.BoundTo names args u)
    (hcount : args.length = names.length)
    (names' : List String) (args' : List Binary64) :
    t.BoundTo (names ++ names') (args ++ args') u := by
  cases h with
  | @placeholder name x hx =>
    have hlt : names.idxOf name < args.length := (List.getElem?_eq_some_iff.1 hx).1
    have hmem : name ∈ names := List.idxOf_lt_length_iff.1 (hcount ▸ hlt)
    refine .placeholder ?_
    rwa [List.idxOf_append_of_mem hmem, List.getElem?_append_left hlt]
  | other hne => exact .other hne

/-- New names have the places behind those. -/
theorem Token.BoundTo.append_left (h : t.BoundTo names' args' u)
    (hcount : args.length = names.length)
    (hnew : ∀ name, t = .placeholder name → name ∉ names) :
    t.BoundTo (names ++ names') (args ++ args') u := by
  cases h with
  | @placeholder name x hx =>
    refine .placeholder ?_
    rw [List.idxOf_append_of_notMem (hnew name rfl), ← hcount,
      List.getElem?_append_right (Nat.le_add_right _ _), Nat.add_sub_cancel_left]
    exact hx
  | other hne => exact .other hne

/-- **Names side by side**: where there are none in common, those of the first tokens come first. -/
theorem placeholderNames_append
    (h : (placeholderNames tokens).Disjoint (placeholderNames tokens')) :
    placeholderNames (tokens ++ tokens') = placeholderNames tokens ++ placeholderNames tokens' := by
  have hnew : (tokens'.filterMap Token.placeholderName?).removeAll
      (tokens.filterMap Token.placeholderName?) = tokens'.filterMap Token.placeholderName? := by
    refine List.filter_eq_self.2 fun name hname => ?_
    have hmem : name ∈ placeholderNames tokens' := List.mem_eraseDups.2 hname
    have hnotMem := fun hname' => h (List.mem_eraseDups.2 hname') hmem
    simpa using hnotMem
  rw [placeholderNames, List.filterMap_append, List.eraseDups_append, hnew, placeholderNames,
    placeholderNames]

/-- **Binding side by side**: where no name is in common and the first tokens take all their
arguments, the arguments of the others are those behind. -/
theorem bindPlaceholders_append_append (h : bindPlaceholders tokens args = .ok bound)
    (h' : bindPlaceholders tokens' args' = .ok bound')
    (hcount : args.length = (placeholderNames tokens).length)
    (hdisjoint : (placeholderNames tokens).Disjoint (placeholderNames tokens')) :
    bindPlaceholders (tokens ++ tokens') (args ++ args') = .ok (bound ++ bound') := by
  obtain ⟨-, hall⟩ := bindPlaceholders_eq_ok_iff.1 h
  obtain ⟨hle', hall'⟩ := bindPlaceholders_eq_ok_iff.1 h'
  rw [bindPlaceholders_eq_ok_iff, placeholderNames_append hdisjoint]
  constructor
  · rw [List.length_append, List.length_append, hcount]
    omega
  · have hnew : ∀ t ∈ tokens', ∀ name, t = .placeholder name → name ∉ placeholderNames tokens := by
      rintro t ht name rfl hname
      exact hdisjoint hname (mem_placeholderNames_iff.2 ht)
    refine List.rel_append (hall.imp fun t u htu => htu.append_right hcount _ _) ?_
    exact ((List.forall₂_and_left _ _).2 ⟨hnew, hall'⟩).imp fun t u htu =>
      htu.2.append_left hcount htu.1

/-- Tokens around others that are no placeholders add no names. -/
theorem placeholderNames_around {v w : List Token} (hv : ∀ name, .placeholder name ∉ v)
    (hw : ∀ name, .placeholder name ∉ w) :
    placeholderNames (v ++ tokens ++ w) = placeholderNames tokens := by
  have hv := placeholderNames_eq_nil hv
  have hw := placeholderNames_eq_nil hw
  rw [placeholderNames_append (by simp [hw]), placeholderNames_append (by simp [hv]), hv, hw,
    List.nil_append, List.append_nil]

/-- Nor do they change what those in between are bound to. -/
theorem bindPlaceholders_around {v w : List Token} (hv : ∀ name, .placeholder name ∉ v)
    (hw : ∀ name, .placeholder name ∉ w) (h : bindPlaceholders tokens args = .ok bound) :
    bindPlaceholders (v ++ tokens ++ w) args = .ok (v ++ bound ++ w) := by
  obtain ⟨hle, hall⟩ := bindPlaceholders_eq_ok_iff.1 h
  rw [bindPlaceholders_eq_ok_iff, placeholderNames_around hv hw]
  exact ⟨hle, List.rel_append (List.rel_append (Token.BoundTo.forall₂_self hv _ _) hall)
    (Token.BoundTo.forall₂_self hw _ _)⟩

/-- Tokens without placeholders on either side stay as they are, and those between are bound by
themselves. -/
theorem exists_bindPlaceholders_around {v w : List Token} (hv : ∀ name, .placeholder name ∉ v)
    (hw : ∀ name, .placeholder name ∉ w)
    (h : bindPlaceholders (v ++ tokens ++ w) args = .ok bound) :
    ∃ bound', bindPlaceholders tokens args = .ok bound' ∧ bound = v ++ bound' ++ w := by
  have hle := (bindPlaceholders_eq_ok_iff.1 h).1
  rw [placeholderNames_around hv hw] at hle
  obtain ⟨bound', hbound', -⟩ := exists_bindPlaceholders_eq_ok hle
  exact ⟨bound', hbound', Except.ok.inj (h.symm.trans (bindPlaceholders_around hv hw hbound'))⟩

/-- Binding adds no token but numbers. -/
theorem mem_of_mem_bindPlaceholders (h : bindPlaceholders tokens args = .ok bound) (hu : u ∈ bound)
    (hne : ∀ x, u ≠ .number x) : u ∈ tokens := by
  obtain ⟨i, hi⟩ := List.mem_iff_getElem?.1 hu
  obtain ⟨t, ht, htu⟩ := exists_getElem?_of_forall₂ (bindPlaceholders_eq_ok_iff.1 h).2.flip hi
  cases htu with
  | placeholder _ => exact absurd rfl (hne _)
  | other _ => exact List.mem_of_getElem? ht

end

/-! ### Formulas without their stages -/

/-- A formula **reads as** an expression: it is lexed to tokens, and what these are bound to builds
the expression and nests `n` levels. -/
structure ReadsAs (formula : String) (args : List Binary64) (tokens : List Token) (e : Expr)
    (n : Nat) :
    Prop where
  lexed : Lexed formula.toList tokens
  derives : ∃ bound, bindPlaceholders tokens args = .ok bound ∧ Grammar.Expression bound e n

section

variable {limits : Limits} {formula : String} {args : List Binary64} {tokens : List Token}
  {e : Expr}
  {n : Nat}

/-- Cutting off the end of the formula leaves the tokens before it. -/
theorem takeWhile_append_eof (h : Token.eof ∉ tokens) :
    (tokens ++ [Token.eof]).takeWhile (· ≠ .eof) = tokens := by
  have hne : ∀ t ∈ tokens, decide (t ≠ Token.eof) = true := fun t ht => by
    simpa using ne_of_mem_of_not_mem ht h
  rw [List.takeWhile_append_of_pos hne]
  simp

/-- **A formula has the outcome of the expression that it reads as.** -/
theorem ReadsAs.evaluate_eq (h : ReadsAs formula args tokens e n)
    (hlength : formula.length ≤ limits.maxLength) (hdepth : n ≤ limits.maxDepth) :
    evaluate limits formula args = e.eval := by
  obtain ⟨bound, hbound, he⟩ := h.derives
  obtain ⟨lexemes, hscan, htokens⟩ := h.lexed.exists_scan
  have hbind : bindPlaceholders (lexemes.map Lexeme.token) args = .ok (bound ++ [.eof]) := by
    rw [htokens]
    exact bindPlaceholders_around (v := []) (by simp) (by simp) hbound
  have hparse : Expr.parse limits.maxDepth (spell (bound ++ [.eof]) lexemes) = .ok e := by
    refine Expr.parse_eq_ok_iff.2 ⟨n, hdepth, ?_⟩
    rwa [Expr.map_token_body, map_token_spell (length_of_bindPlaceholders hbind),
      takeWhile_append_eof he.eof_notMem]
  rw [evaluate_of_length_le (isBlankText_eq_false_of_parse hscan hparse hbind) hlength, hscan,
    ok_bind, hbind, ok_bind, hparse, ok_bind]

/-- **A formula that has a value reads as an expression** that has it. -/
theorem exists_readsAs {lexemes : List Lexeme} {x : Binary64}
    (h : evaluate limits formula args = .ok x) (hscan : scan formula = .ok lexemes) :
    ∃ tokens e n, lexemes.map Lexeme.token = tokens ++ [.eof] ∧ ReadsAs formula args tokens e n ∧
      n ≤ limits.maxDepth ∧ e.eval = .ok x := by
  obtain ⟨-, -, lexemes', us, e, hscan', hbind, hparse, heval⟩ := evaluate_eq_ok_iff.1 h
  obtain rfl := Except.ok.inj (hscan.symm.trans hscan')
  obtain ⟨tokens, hlexed, htokens⟩ := (scanFrom_eq_ok_iff.1 hscan).exists_lexed
  obtain ⟨n, hn, he⟩ := Expr.parse_eq_ok_iff.1 hparse
  rw [Expr.map_token_body, map_token_spell (length_of_bindPlaceholders hbind)] at he
  -- The end of the formula is bound to itself.
  rw [htokens] at hbind
  obtain ⟨bound, hbound, rfl⟩ := exists_bindPlaceholders_around (v := []) (by simp) (by simp) hbind
  rw [List.nil_append] at he
  have heof : .eof ∉ bound := fun hmem =>
    hlexed.eof_notMem (mem_of_mem_bindPlaceholders hbound hmem (by simp))
  rw [takeWhile_append_eof heof] at he
  exact ⟨tokens, e, n, htokens, ⟨hlexed, bound, hbound, he⟩, hn, heval⟩

end

/-! ### Messages -/

/-- The text of an operator at two operands: its name and both of them. -/
theorem Operation.text_binary (op : Operator) (x y : Binary64) :
    (binary op x y).text = op.operationName ++ " of " ++ x.text ++ " and " ++ y.text := by
  simp only [text, toString]

/-- The text of a result that is not finite: the operation and the result. -/
theorem DomainFault.text_notFinite (operation : Operation) (result : Binary64) :
    (notFinite operation result).text =
      operation.text ++ " produced a non-finite result (" ++ result.text ++ ")" :=
  rfl

/-- The message of a fault in the numbers has its kind in front. -/
theorem FormulaError.message_domain (fault : DomainFault) :
    (domain fault).message = "Domain error: " ++ fault.text := by
  have h : (domain fault).message = s!"Domain error: {fault.text}" := rfl
  simp [h, toString]

/-! ### Formulas put together -/

/-- What an operator may be written as. -/
def Operator.texts : Operator → List String
  | pow => ["^", "**"]
  | op => [op.symbol.toString]

/-- Each text of an operator spells its token. -/
theorem Operator.spells_of_mem_texts {op : Operator} {symbol : String} (h : symbol ∈ op.texts) :
    Spells (.operator op) symbol.toList := by
  cases op with
  | pow =>
    rcases List.mem_cons.1 h with rfl | h
    · exact .operator .pow
    · obtain rfl := List.mem_singleton.1 h
      exact .asterisks
  | add | sub | mul | div =>
    obtain rfl := List.mem_singleton.1 h
    exact .operator _

/-- Two formulas in parentheses with an operator between them. -/
def joined (f symbol g : String) : String :=
  "(" ++ f ++ ")" ++ symbol ++ "(" ++ g ++ ")"

/-- The tokens of two formulas in parentheses with an operator between them. -/
def joinedTokens (ts : List Token) (op : Operator) (us : List Token) : List Token :=
  .openParen :: (ts ++ [.closeParen]) ++ .operator op :: .openParen :: (us ++ [.closeParen])

section

variable {f g symbol : String} {ts us vs ws : List Token} {op : Operator}

/-- Two formulas in parentheses with an operator between them are lexed to their tokens, put
together in the same way. -/
theorem Lexed.joined (hf : Lexed f.toList ts) (hg : Lexed g.toList us)
    (hsymbol : symbol ∈ op.texts) :
    Lexed (joined f symbol g).toList (joinedTokens ts op us) := by
  have hright : Lexed ('(' :: (g.toList ++ [')'])) (.openParen :: (us ++ [.closeParen])) :=
    hg.group .nil
  have hspells := op.spells_of_mem_texts hsymbol
  have hoperator := hright.token (hspells.longest (apart_openParen _))
  simpa [Reckoner.joined, joinedTokens] using hf.group hoperator

/-- Two formulas put together are bound to what each of them is bound to by itself, if they have no
name in common. -/
theorem bindPlaceholders_joinedTokens {a b : List Binary64} (hf : bindPlaceholders ts a = .ok vs)
    (hg : bindPlaceholders us b = .ok ws) (hcount : a.length = (placeholderNames ts).length)
    (hdisjoint : (placeholderNames ts).Disjoint (placeholderNames us)) (op : Operator) :
    bindPlaceholders (joinedTokens ts op us) (a ++ b) = .ok (joinedTokens vs op ws) := by
  have hopen : ∀ name, Token.placeholder name ∉ [Token.openParen] := by simp
  have hclose : ∀ name, Token.placeholder name ∉ [Token.closeParen] := by simp
  have hoperator : ∀ name, Token.placeholder name ∉ [Token.closeParen, .operator op] := by simp
  have hbound := bindPlaceholders_append_append (bindPlaceholders_around hopen hoperator hf)
    (bindPlaceholders_around hopen hclose hg)
    (by rwa [placeholderNames_around hopen hoperator])
    (by rwa [placeholderNames_around hopen hoperator, placeholderNames_around hopen hclose])
  simpa [joinedTokens] using hbound

/-- **In parentheses, either formula is an operand**, whatever its operators are. -/
theorem ReadsAs.joined {a b : List Binary64} {l r : Expr} {m n : Nat} (hf : ReadsAs f a ts l m)
    (hg : ReadsAs g b us r n) (hcount : a.length = (placeholderNames ts).length)
    (hdisjoint : (placeholderNames ts).Disjoint (placeholderNames us))
    (hsymbol : symbol ∈ op.texts) :
    ∃ k ≤ max (m + 1) (n + 2),
      ReadsAs (joined f symbol g) (a ++ b) (joinedTokens ts op us) (.binary op l r) k := by
  obtain ⟨vs, hvs, hl⟩ := hf.derives
  obtain ⟨ws, hws, hr⟩ := hg.derives
  have hleft : Grammar.Phrase 5 (.openParen :: (vs ++ [.closeParen])) l (m + 1) := .group hl
  have hright : Grammar.Phrase 5 (.openParen :: (ws ++ [.closeParen])) r (n + 1) := .group hr
  obtain ⟨k, hk, he⟩ := (hleft.mono op.leftLevel_le).binary (hright.mono op.rightLevel_le)
  exact ⟨k, hk, hf.lexed.joined hg.lexed hsymbol, _,
    bindPlaceholders_joinedTokens hvs hws hcount hdisjoint op, he.mono (Nat.zero_le _)⟩

end

/-- **Formulas compose.** Two formulas that have values, the first one with exactly as many
arguments as it has placeholders, and with no placeholder in common, are put in parentheses with an
operator between them, and their arguments one behind the other. If two more levels are allowed and
it is not too long, the outcome is that of the operator alone at the two values: its result, if that
is finite, or the error that it is not. -/
theorem operators_compose (limits limits' : Limits) (f g symbol : String) (a b : List Binary64)
    (x y : Binary64) (lexemes lexemes' : List Lexeme) (op : Operator)
    (hf : evaluate limits f a = .ok x) (hg : evaluate limits g b = .ok y)
    (hscan : scan f = .ok lexemes) (hscan' : scan g = .ok lexemes')
    (hcount : a.length = (placeholderNames (lexemes.map Lexeme.token)).length)
    (hdisjoint : ∀ name ∈ placeholderNames (lexemes.map Lexeme.token),
      name ∉ placeholderNames (lexemes'.map Lexeme.token))
    (hsymbol : symbol ∈ op.texts) (hdepth : limits.maxDepth + 2 ≤ limits'.maxDepth)
    (hlength : (joined f symbol g).length ≤ limits'.maxLength) :
    evaluate limits' (joined f symbol g) (a ++ b) = op.apply x y ∧
    ((op.compute x y).isFinite = true →
      evaluate limits' (joined f symbol g) (a ++ b) = .ok (op.compute x y)) ∧
    ((op.compute x y).isFinite = false → ∃ err,
      evaluate limits' (joined f symbol g) (a ++ b) = .error err ∧ err.kind = .domain ∧
        err.message =
          "Domain error: " ++ op.operationName ++ " of " ++ x.text ++ " and " ++ y.text ++
          " produced a non-finite result (" ++ (op.compute x y).text ++ ")") := by
  -- Each formula has an expression of its own, and both are operands of the whole.
  obtain ⟨ts, l, m, hts, hl, hm, hx⟩ := exists_readsAs hf hscan
  obtain ⟨us, r, n, hus, hr, hn, hy⟩ := exists_readsAs hg hscan'
  have hnames : ∀ tokens : List Token,
      placeholderNames (tokens ++ [.eof]) = placeholderNames tokens :=
    fun tokens => placeholderNames_around (v := []) (by simp) (by simp)
  rw [hts, hnames] at hcount hdisjoint
  rw [hus, hnames] at hdisjoint
  obtain ⟨k, hk, hreads⟩ := hl.joined hr hcount (fun name => hdisjoint name) hsymbol
  have houtcome : evaluate limits' (joined f symbol g) (a ++ b) = op.apply x y := by
    rw [hreads.evaluate_eq hlength (by omega), Expr.eval_binary, hx, ok_bind, hy, ok_bind]
  refine ⟨houtcome, fun hfinite => ?_, fun hfinite =>
    ⟨.domain (.notFinite (.binary op x y) (op.compute x y)), ?_, rfl, ?_⟩⟩
  · rw [houtcome]
    exact requireFinite_eq_ok_iff.2 ⟨hfinite, rfl⟩
  · rw [houtcome]
    exact requireFinite_eq_error_iff.2 ⟨hfinite, rfl⟩
  · rw [FormulaError.message_domain, DomainFault.text_notFinite, Operation.text_binary]
    simp only [String.append_assoc]

/-- A power whose base is negative and has an operator that binds less, with the least limits that
are asked for, and a quotient by zero. -/
theorem operators_compose_power :
    evaluate ⟨4, 0⟩ "2-$x" [.ofInt 5] = .ok (.ofInt (-3)) ∧
    evaluate ⟨4, 0⟩ "$y+1" [.ofInt 2] = .ok (.ofInt 3) ∧
    evaluate ⟨14, 2⟩ "(2-$x)**($y+1)" [.ofInt 5, .ofInt 2] = .ok (.ofInt (-27)) ∧
    ∃ err, evaluate ⟨13, 2⟩ "(2-$x)/($y+1)" [.ofInt 5, .ofInt (-1)] = .error err ∧
      err.message = "Domain error: division of -3 and 0 produced a non-finite result (-inf)" := by
  have hbase : evaluate ⟨4, 0⟩ "2-$x" [.ofInt 5] = .ok (.ofInt (-3)) := by decide +kernel
  have hexponent : evaluate ⟨4, 0⟩ "$y+1" [.ofInt 2] = .ok (.ofInt 3) := by decide +kernel
  have hzero : evaluate ⟨4, 0⟩ "$y+1" [.ofInt (-1)] = .ok (.ofInt 0) := by decide +kernel
  have hscan : scan "2-$x" = .ok [⟨.number (.ofInt 2), "2", 0⟩, ⟨.operator .sub, "-", 1⟩,
      ⟨.placeholder "x", "$x", 2⟩, ⟨.eof, "", 4⟩] := by
    decide +kernel
  have hscan' : scan "$y+1" = .ok [⟨.placeholder "y", "$y", 0⟩, ⟨.operator .add, "+", 2⟩,
      ⟨.number (.ofInt 1), "1", 3⟩, ⟨.eof, "", 4⟩] := by
    decide +kernel
  obtain ⟨-, hpower, -⟩ := operators_compose ⟨4, 0⟩ ⟨14, 2⟩ _ _ "**" _ _ _ _ _ _ .pow
    hbase hexponent hscan hscan' (by decide) (by decide) (by decide) (by decide) (by decide)
  obtain ⟨-, -, hquotient⟩ := operators_compose ⟨4, 0⟩ ⟨13, 2⟩ _ _ "/" _ _ _ _ _ _ .div
    hbase hzero hscan hscan' (by decide) (by decide) (by decide) (by decide) (by decide)
  refine ⟨hbase, hexponent, (hpower (by decide +kernel)).trans ?_, ?_⟩
  · decide +kernel
  · obtain ⟨err, herr, -, hmessage⟩ := hquotient (by decide +kernel)
    refine ⟨err, herr, hmessage.trans ?_⟩
    decide +kernel

end Reckoner
