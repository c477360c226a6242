import Mathlib
import Reckoner.Binding
import Reckoner.Proofs.Steps

/-!
# Binding by First Appearance

The distinct names of a formula, in the order in which they first appear, take the arguments one
after the other. Binding goes through the tokens once and knows only the names met so far; these are
always the first ones of that order, so that their places in it are final.

Main definitions:

* `placeholderNames`: the distinct names of placeholders, in order of first appearance;
* `Token.BoundTo`: what becomes of a token.

Main results:

* `bindPlaceholders_eq_ok_iff`: where there are enough arguments, each token is bound;
* `bindPlaceholders_eq_error`: where there are not, the first name that is left over is the error;
* `binding_by_first_appearance`: both, token by token.
-/

namespace Reckoner

/-! ### Names in order of first appearance -/

/-- The name of a placeholder. -/
def Token.placeholderName? : Token → Option String
  | placeholder s => some s
  | _ => none

/-- The distinct names of the placeholders among tokens, in order of first appearance. -/
def placeholderNames (tokens : List Token) : List String :=
  (tokens.filterMap Token.placeholderName?).eraseDups

/-- The names in `seen`, and behind them those among the tokens that are not in `seen`, in order of
first appearance. -/
def namesFrom (seen : List String) (tokens : List Token) : List String :=
  seen ++ ((tokens.filterMap Token.placeholderName?).removeAll seen).eraseDups

/-- Only a placeholder has the name of one. -/
theorem placeholderName?_eq_none {t : Token} (h : ∀ name, t ≠ .placeholder name) :
    t.placeholderName? = none := by
  cases t with
  | placeholder name => exact absurd rfl (h name)
  | _ => rfl

/-- A list in which no element occurs again has no duplicates. -/
theorem nodup_eraseDups (l : List String) : l.eraseDups.Nodup := by
  induction hlen : l.length using Nat.strong_induction_on generalizing l with
  | _ len ih =>
    cases l with
    | nil => simp
    | cons a l =>
      have hle := List.length_filter_le (fun b => !b == a) l
      rw [List.length_cons] at hlen
      rw [List.eraseDups_cons, List.nodup_cons, List.mem_eraseDups, List.mem_filter]
      exact ⟨by simp, ih _ (by omega) _ rfl⟩

section

variable {seen : List String} {name : String} {t : Token} {tokens : List Token}

/-- With no name met so far, the names are those of all tokens. -/
theorem namesFrom_nil_left : namesFrom [] tokens = placeholderNames tokens := by
  simp [namesFrom, placeholderNames, List.removeAll]

/-- At the end of the tokens, the names are those met so far. -/
theorem namesFrom_nil_right : namesFrom seen [] = seen := by
  simp [namesFrom, List.removeAll]

/-- A token that is no placeholder adds no name. -/
theorem namesFrom_of_ne (h : ∀ name, t ≠ .placeholder name) :
    namesFrom seen (t :: tokens) = namesFrom seen tokens := by
  rw [namesFrom, List.filterMap_cons_none (placeholderName?_eq_none h), namesFrom]

/-- A name that was met before adds nothing. -/
theorem namesFrom_of_mem (h : name ∈ seen) :
    namesFrom seen (.placeholder name :: tokens) = namesFrom seen tokens := by
  have hname : Token.placeholderName? (.placeholder name) = some name := rfl
  rw [namesFrom, List.filterMap_cons_some hname, namesFrom, List.removeAll, List.filter_cons_of_neg]
  · rfl
  · simpa using h

/-- A new name comes next. -/
theorem namesFrom_of_notMem (h : name ∉ seen) :
    namesFrom seen (.placeholder name :: tokens) = namesFrom (seen ++ [name]) tokens := by
  have hname : Token.placeholderName? (.placeholder name) = some name := rfl
  rw [namesFrom, List.filterMap_cons_some hname, List.removeAll, List.filter_cons_of_pos]
  · rw [List.eraseDups_cons, List.filter_filter, namesFrom, List.append_assoc]
    simp [List.removeAll, Bool.and_comm, beq_eq_decide]
  · simpa using h

/-- The names are those met so far and those of the placeholders to come. -/
theorem mem_namesFrom_iff : name ∈ namesFrom seen tokens ↔
    name ∈ seen ∨ .placeholder name ∈ tokens := by
  have hname : ∀ t : Token, t.placeholderName? = some name ↔ t = .placeholder name := by
    intro t
    cases t <;> simp [Token.placeholderName?]
  by_cases h : name ∈ seen
  · simp [namesFrom, h]
  · simp [namesFrom, h, List.removeAll, hname]

/-- A name is among those of the tokens if and only if a placeholder has it. -/
theorem mem_placeholderNames_iff :
    name ∈ placeholderNames tokens ↔ .placeholder name ∈ tokens := by
  simp [← namesFrom_nil_left, mem_namesFrom_iff]

end

/-! ### What is bound -/

/-- What becomes of a token: a placeholder is **bound to** the argument that has the place of its
name, and other tokens stay what they are. -/
inductive Token.BoundTo (names : List String) (args : List Binary64) : Token → Token → Prop
  | placeholder {name : String} {x : Binary64} : args[names.idxOf name]? = some x →
      Token.BoundTo names args (.placeholder name) (.number x)
  | other {t : Token} : (∀ name, t ≠ .placeholder name) → Token.BoundTo names args t t

/-- A token is bound to one token. -/
theorem Token.BoundTo.unique {names : List String} {args : List Binary64} {t u v : Token}
    (hu : BoundTo names args t u) (hv : BoundTo names args t v) : u = v := by
  cases hu with
  | placeholder hx =>
    cases hv with
    | placeholder hy => rw [Option.some.inj (hx.symm.trans hy)]
    | other hne => exact absurd rfl (hne _)
  | other hne =>
    cases hv with
    | placeholder hy => exact absurd rfl (hne _)
    | other _ => rfl

/-- Names and arguments settle what tokens are bound to. -/
theorem Token.BoundTo.rightUnique_forall₂ (names : List String) (args : List Binary64) :
    Relator.RightUnique (List.Forall₂ (BoundTo names args)) :=
  Relator.RightUnique.forall₂ fun _ _ _ => unique

/-- Lists that correspond one to one do so at each place. -/
theorem exists_getElem?_of_forall₂ {α β : Type} {r : α → β → Prop} {as : List α} {bs : List β}
    (h : List.Forall₂ r as bs) {i : Nat} {a : α} (ha : as[i]? = some a) :
    ∃ b, bs[i]? = some b ∧ r a b := by
  obtain ⟨hi, rfl⟩ := List.getElem?_eq_some_iff.1 ha
  have hj : i < bs.length := h.length_eq ▸ hi
  exact ⟨bs[i], List.getElem?_eq_getElem hj, h.get hi hj⟩

section

variable {names : List String} {args : List Binary64} {seen : List String} {name : String}
  {tokens bound : List Token}

/-- The place of a name among those met so far, or behind them, is final. -/
theorem idxOf_namesFrom (name : String) (tokens : List Token) :
    (namesFrom seen (.placeholder name :: tokens)).idxOf name = seen.idxOf name := by
  by_cases h : name ∈ seen
  · rw [namesFrom, List.idxOf_append_of_mem h]
  · rw [namesFrom_of_notMem h, namesFrom, List.idxOf_append_of_mem (by simp),
      List.idxOf_append_of_notMem h, List.idxOf_cons_self, List.idxOf_of_notMem h, Nat.add_zero]

/-- The names met so far, with the next one. -/
theorem namesFrom_placeholder (name : String) (tokens : List Token) :
    namesFrom seen (.placeholder name :: tokens) =
      namesFrom (if seen.idxOf name < seen.length then seen else seen ++ [name]) tokens := by
  by_cases h : name ∈ seen
  · rw [namesFrom_of_mem h, if_pos (List.idxOf_lt_length_iff.2 h)]
  · rw [namesFrom_of_notMem h, if_neg (mt List.idxOf_lt_length_iff.1 h)]

/-- Other tokens than placeholders stay what they are. -/
theorem bindFrom_of_ne (h : ∀ name, t ≠ .placeholder name) :
    bindFrom args seen (t :: tokens) =
      bindFrom args seen tokens >>= fun bound => .ok (t :: bound) := by
  cases t with
  | placeholder name => exact absurd rfl (h name)
  | _ => rfl

/-- Where there are enough arguments, each token is bound. -/
theorem bindFrom_eq_ok (h : (namesFrom seen tokens).length ≤ args.length) :
    ∃ bound, bindFrom args seen tokens = .ok bound ∧
      List.Forall₂ (Token.BoundTo (namesFrom seen tokens) args) tokens bound := by
  fun_induction bindFrom args seen tokens with
  | case1 => exact ⟨[], rfl, .nil⟩
  | case2 seen name tokens index hnone =>
    have hmem : name ∈ namesFrom seen (.placeholder name :: tokens) :=
      mem_namesFrom_iff.2 (.inr List.mem_cons_self)
    have hlt := List.idxOf_lt_length_iff.2 hmem
    rw [idxOf_namesFrom] at hlt
    exact absurd (List.getElem?_eq_none_iff.1 hnone) (by omega)
  | case3 seen name tokens index x hsome ih =>
    have hplace : args[(namesFrom seen (.placeholder name :: tokens)).idxOf name]? = some x := by
      rw [idxOf_namesFrom]
      exact hsome
    rw [namesFrom_placeholder] at h hplace ⊢
    obtain ⟨bound, hbound, hall⟩ := ih h
    exact ⟨.number x :: bound, by rw [hbound, ok_bind], .cons (.placeholder hplace) hall⟩
  | case4 seen t tokens hother ih =>
    rw [namesFrom_of_ne hother] at *
    obtain ⟨bound, hbound, hall⟩ := ih h
    exact ⟨t :: bound, by rw [hbound, ok_bind], .cons (.other hother) hall⟩

/-- Where there are not, the first name that is left over is the error: all names met so far have
arguments, so that it is the one behind them. -/
theorem bindFrom_eq_error (hseen : seen.length ≤ args.length)
    (h : args.length < (namesFrom seen tokens).length) :
    ∃ name, (namesFrom seen tokens)[args.length]? = some name ∧
      bindFrom args seen tokens = .error (.missingArgument name args.length args.length) := by
  -- While all names have arguments, no more names have been met than there are arguments.
  fun_induction bindFrom args seen tokens with
  | case1 seen =>
    rw [namesFrom_nil_right] at h
    omega
  | case2 seen name tokens index hnone =>
    have hindex : index = args.length := by
      have hle : index ≤ seen.length := List.idxOf_le_length
      have hge := List.getElem?_eq_none_iff.1 hnone
      omega
    have hmem : name ∈ namesFrom seen (.placeholder name :: tokens) :=
      mem_namesFrom_iff.2 (.inr List.mem_cons_self)
    refine ⟨name, ?_, by rw [hindex]⟩
    have hname := List.getElem?_idxOf hmem
    rwa [idxOf_namesFrom, show seen.idxOf name = args.length from hindex] at hname
  | case3 seen name tokens index x hsome ih =>
    have hlt : seen.idxOf name < args.length := (List.getElem?_eq_some_iff.1 hsome).1
    have hnext : (if seen.idxOf name < seen.length then seen else seen ++ [name]).length ≤
        args.length := by
      split_ifs
      · exact hseen
      · rw [List.length_append, List.length_singleton]
        omega
    rw [namesFrom_placeholder] at h ⊢
    obtain ⟨name', hname', herr⟩ := ih hnext h
    exact ⟨name', hname', by rw [herr, error_bind]⟩
  | case4 seen t tokens hother ih =>
    rw [namesFrom_of_ne hother] at *
    obtain ⟨name, hname, herr⟩ := ih hseen h
    exact ⟨name, hname, by rw [herr, error_bind]⟩

/-- With enough arguments, tokens are bound one to one. -/
theorem exists_bindPlaceholders_eq_ok (h : (placeholderNames tokens).length ≤ args.length) :
    ∃ bound, bindPlaceholders tokens args = .ok bound ∧
      List.Forall₂ (Token.BoundTo (placeholderNames tokens) args) tokens bound := by
  rw [← namesFrom_nil_left] at h ⊢
  exact bindFrom_eq_ok h

/-- **Where there are not enough arguments, the first name that is left over is the error.** -/
theorem bindPlaceholders_eq_error (h : args.length < (placeholderNames tokens).length) :
    bindPlaceholders tokens args =
      .error (.missingArgument (placeholderNames tokens)[args.length] args.length args.length) := by
  rw [← namesFrom_nil_left] at h
  obtain ⟨name, hname, herr⟩ := bindFrom_eq_error (Nat.zero_le _) h
  rw [namesFrom_nil_left] at hname
  rw [bindPlaceholders, herr, (List.getElem?_eq_some_iff.1 hname).2]

/-- **Where there are enough arguments, each token is bound**, and only there. -/
theorem bindPlaceholders_eq_ok_iff : bindPlaceholders tokens args = .ok bound ↔
    (placeholderNames tokens).length ≤ args.length ∧
      List.Forall₂ (Token.BoundTo (placeholderNames tokens) args) tokens bound := by
  constructor
  · intro h
    rcases Nat.lt_or_ge args.length (placeholderNames tokens).length with hlt | hle
    · rw [bindPlaceholders_eq_error hlt] at h
      cases h
    · obtain ⟨bound', hok, hall⟩ := exists_bindPlaceholders_eq_ok hle
      obtain rfl := Except.ok.inj (hok.symm.trans h)
      exact ⟨hle, hall⟩
  · rintro ⟨hle, hall⟩
    obtain ⟨bound', hok, hall'⟩ := exists_bindPlaceholders_eq_ok hle
    rw [hok, Token.BoundTo.rightUnique_forall₂ _ _ hall' hall]

/-- No placeholder is left among bound tokens. -/
theorem placeholder_notMem_of_bindPlaceholders (h : bindPlaceholders tokens args = .ok bound)
    (name : String) : .placeholder name ∉ bound := by
  intro hmem
  have hall := (bindPlaceholders_eq_ok_iff.1 h).2
  obtain ⟨i, hi⟩ := List.mem_iff_getElem?.1 hmem
  obtain ⟨t, -, ht⟩ := exists_getElem?_of_forall₂ hall.flip hi
  cases ht with
  | other hne => exact hne name rfl

/-- Tokens without placeholders have no names. -/
theorem placeholderNames_eq_nil (h : ∀ name, .placeholder name ∉ tokens) :
    placeholderNames tokens = [] := by
  rw [List.eq_nil_iff_forall_not_mem]
  exact fun name hmem => h name (mem_placeholderNames_iff.1 hmem)

/-- Tokens without placeholders are bound to themselves, whatever the arguments are. -/
theorem Token.BoundTo.forall₂_self (h : ∀ name, .placeholder name ∉ tokens) (names : List String)
    (args : List Binary64) : List.Forall₂ (Token.BoundTo names args) tokens tokens := by
  refine List.forall₂_same.2 fun t ht => .other ?_
  rintro name rfl
  exact h name ht

/-- Tokens without placeholders are bound to themselves. -/
theorem bindPlaceholders_eq_self (h : ∀ name, .placeholder name ∉ tokens)
    (args : List Binary64) : bindPlaceholders tokens args = .ok tokens := by
  refine bindPlaceholders_eq_ok_iff.2 ⟨?_, Token.BoundTo.forall₂_self h _ _⟩
  rw [placeholderNames_eq_nil h]
  exact Nat.zero_le _

end

/-- **Binding is by first appearance.** Where there are at least as many arguments as distinct
placeholders, tokens are bound one to one: a placeholder becomes the argument that has the place of
its name in the order of first appearance, wherever it occurs, and any other token stays what it is.
Where there are fewer, the error is about the first name in this order that has no argument,
whatever follows it. -/
theorem binding_by_first_appearance (tokens : List Token) (args : List Binary64) :
    (placeholderNames tokens).Nodup ∧
    ((placeholderNames tokens).length ≤ args.length →
      ∃ bound, bindPlaceholders tokens args = .ok bound ∧ bound.length = tokens.length ∧
        (∀ (i : Nat) (t : Token), tokens[i]? = some t → (∀ name, t ≠ .placeholder name) →
          bound[i]? = some t) ∧
        ∀ (i : Nat) (name : String), tokens[i]? = some (Token.placeholder name) →
          ∃ (k : Nat) (x : Binary64),
            (placeholderNames tokens)[k]? = some name ∧ args[k]? = some x ∧
            bound[i]? = some (Token.number x)) ∧
    ∀ h : args.length < (placeholderNames tokens).length,
      bindPlaceholders tokens args =
        .error
          (.missingArgument (placeholderNames tokens)[args.length] args.length args.length) := by
  refine ⟨nodup_eraseDups _, fun hle => ?_, bindPlaceholders_eq_error⟩
  obtain ⟨bound, hok, hall⟩ := exists_bindPlaceholders_eq_ok hle
  refine ⟨bound, hok, hall.length_eq.symm, fun i t hi hother => ?_, fun i name hi => ?_⟩
  · obtain ⟨u, hu, htu⟩ := exists_getElem?_of_forall₂ hall hi
    rw [hu, (Token.BoundTo.other hother).unique htu]
  · obtain ⟨u, hu, htu⟩ := exists_getElem?_of_forall₂ hall hi
    cases htu with
    | placeholder hx =>
      have hmem := mem_placeholderNames_iff.2 (List.mem_of_getElem? hi)
      exact ⟨_, _, List.getElem?_idxOf hmem, hx, hu⟩
    | other hne => exact absurd rfl (hne name)

/-- A name that occurs again and one that differs from it in case, with an argument to spare and
with one too few. -/
theorem binding_by_first_appearance_repeated :
    placeholderNames [.placeholder "x", .placeholder "X", .comma, .placeholder "x"] = ["x", "X"] ∧
    (∃ bound, bindPlaceholders [.placeholder "x", .placeholder "X", .comma, .placeholder "x"]
        [.inf true, .nan, .zero true] = .ok bound ∧
      bound.length = 4 ∧ bound[2]? = some .comma ∧ bound[3]? = some (.number (.inf true))) ∧
    bindPlaceholders [.placeholder "x", .placeholder "X", .comma, .placeholder "x"] [.nan] =
      .error (.missingArgument "X" 1 1) := by
  have hnames : placeholderNames [.placeholder "x", .placeholder "X", .comma, .placeholder "x"] =
      ["x", "X"] := by
    decide
  obtain ⟨-, henough, -⟩ := binding_by_first_appearance
    [.placeholder "x", .placeholder "X", .comma, .placeholder "x"] [.inf true, .nan, .zero true]
  obtain ⟨-, -, hfew⟩ := binding_by_first_appearance
    [.placeholder "x", .placeholder "X", .comma, .placeholder "x"] [.nan]
  obtain ⟨bound, hok, hlength, hother, hplaceholder⟩ := henough (by rw [hnames]; decide)
  obtain ⟨k, x, hk, hx, hbound⟩ := hplaceholder 3 "x" rfl
  refine ⟨hnames, ⟨bound, hok, hlength, hother 2 .comma rfl (by simp), ?_⟩, ?_⟩
  · have hzero : k = 0 := by
      rw [hnames] at hk
      match k, hk with
      | 0, _ => rfl
      | 1, hk => exact absurd hk (by decide)
    subst hzero
    rw [hbound, ← Option.some.inj hx]
  · simpa [hnames] using hfew (by rw [hnames]; decide)

end Reckoner
