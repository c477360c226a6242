import Mathlib
import Reckoner.Proofs.Joined
import Reckoner.Proofs.Json.Numbers

/-!
# Written JSON

What a JSON value is written as reads back as the value. The escaped characters of a text are the
characters again, whatever the text is. A list reads back if its items do, since no item starts like
the end of a list, and commas and brackets end what is in front of them. Numbers are the only values
that could go on in what follows them.

Main definition: `Json.Writable`, the values whose numbers are finite.

Main results:

* `Json.text?_quote`: a quoted text reads back;
* `Json.list?_intercalate`: a list reads back if its items do;
* `Json.value?_render`: a value reads back in front of anything that may follow it;
* `Json.read?_render`: a value reads back;
* `Json.Writable.toNat_of_mem_render`: a value is written without control characters.
-/

namespace Reckoner

namespace Json

/-! ### Texts -/

/-- A hexadecimal digit is read back. -/
theorem hexDigit?_digitChar : ∀ n < 16, hexDigit? (Nat.digitChar n) = some n := by
  decide

/-- Below the surrogates, the code units of characters are the characters. -/
theorem coded?_digitChar {n : Nat} (hn : n < 256) (rest : List Char) :
    coded? ('0' :: '0' :: Nat.digitChar (n / 16) :: Nat.digitChar (n % 16) :: rest) =
      some (Char.ofNat n, rest) := by
  have hzero : hexDigit? '0' = some 0 := by decide
  have hhigh := hexDigit?_digitChar (n / 16) (by omega)
  have hlow := hexDigit?_digitChar (n % 16) (by omega)
  have hunit : unit? ('0' :: '0' :: Nat.digitChar (n / 16) :: Nat.digitChar (n % 16) :: rest) =
      some (n, rest) := by
    simp only [unit?, hzero, hhigh, hlow, Option.bind_eq_bind, Option.bind_some, Option.some.injEq,
      Prod.mk.injEq, and_true]
    omega
  simp only [coded?, hunit, Option.bind_eq_bind, Option.bind_some]
  rw [if_pos (.inl (by omega))]

/-- **An escaped character is read back.** -/
theorem character?_escape (c : Char) (rest : List Char) :
    character? (escape c ++ rest) = some (c, rest) := by
  have hchar : ∀ {n : Nat}, c.toNat = n → c = Char.ofNat n := by
    rintro n rfl
    exact c.ofNat_toNat.symm
  unfold escape
  -- Letters behind a backslash, code units, and characters that stand for themselves.
  split_ifs with hquote hbackslash hb ht hn hf hr hcontrol
  · rw [hquote]
    rfl
  · rw [hbackslash]
    rfl
  · rw [hchar hb]
    rfl
  · rw [hchar ht]
    rfl
  · rw [hchar hn]
    rfl
  · rw [hchar hf]
    rfl
  · rw [hchar hr]
    rfl
  · have hcoded := coded?_digitChar (n := c.toNat) (by omega) rest
    rw [c.ofNat_toNat] at hcoded
    exact hcoded
  · rw [List.singleton_append, character?.eq_3 _ _ (by simp [hbackslash]) (by simp [hbackslash]),
      if_neg (by simp [hquote, hbackslash, hcontrol])]

/-- Escaped characters are read back up to the closing quote. -/
theorem characters?_flatMap_escape (s rest : List Char) {n : Nat} (hn : s.length < n) :
    characters? n (s.flatMap escape ++ '"' :: rest) = some (s, rest) := by
  induction s generalizing n with
  | nil =>
    obtain ⟨n, rfl⟩ := Nat.exists_eq_add_one_of_ne_zero (Nat.ne_of_gt hn)
    rfl
  | cons c s ih =>
    obtain ⟨n, rfl⟩ := Nat.exists_eq_add_one_of_ne_zero (Nat.ne_of_gt (Nat.zero_lt_of_lt hn))
    have hrest : s.length < n := Nat.lt_of_succ_lt_succ hn
    simp only [List.flatMap_cons, List.append_assoc, characters?, character?_escape, ih hrest,
      Option.map_some]

/-- Escapes make a text no shorter, so that it is long enough for the reader. -/
theorem length_le_flatMap_escape (s : List Char) : s.length ≤ (s.flatMap escape).length := by
  have hpos : ∀ c, 1 ≤ (escape c).length := by
    intro c
    unfold escape
    split_ifs <;> simp
  induction s with
  | nil => simp
  | cons c s ih =>
    have := hpos c
    rw [List.flatMap_cons, List.length_append, List.length_cons]
    omega

/-- **A quoted text is read back.** -/
theorem text?_quote (s : String) (rest : List Char) :
    text? ((quote s).toList ++ rest) = some (s, rest) := by
  have hlength := length_le_flatMap_escape s.toList
  have hquote : (quote s).toList ++ rest = '"' :: (s.toList.flatMap escape ++ '"' :: rest) := by
    simp [quote]
  have hfuel : s.toList.length < (s.toList.flatMap escape ++ '"' :: rest).length := by
    rw [List.length_append, List.length_cons]
    omega
  rw [hquote, text?, characters?_flatMap_escape s.toList rest hfuel, Option.map_some,
    String.ofList_toList]

/-- An escaped character has no control characters. -/
theorem toNat_of_mem_escape (c : Char) : ∀ d ∈ escape c, 32 ≤ d.toNat := by
  have hdigit : ∀ n < 16, 32 ≤ (Nat.digitChar n).toNat := by decide
  unfold escape
  split_ifs with hquote hbackslash hb ht hn hf hr hcontrol
  iterate 7 · simp
  · have hhigh := hdigit (c.toNat / 16) (by omega)
    have hlow := hdigit (c.toNat % 16) (by omega)
    simp [hhigh, hlow]
  · exact List.forall_mem_singleton.2 (Nat.not_lt.1 hcontrol)

/-! ### Values -/

/-- A JSON value can be **written** if its numbers are finite. -/
inductive Writable : Json → Prop
  | null : Writable .null
  | bool (b : Bool) : Writable (.bool b)
  | int (n : Int) : Writable (.int n)
  | float {x : Binary64} : x.isFinite → Writable (.float x)
  | str (s : String) : Writable (.str s)
  | arr {items : List Json} : (∀ v ∈ items, Writable v) → Writable (.arr items)
  | obj {fields : List (String × Json)} : (∀ p ∈ fields, Writable p.2) → Writable (.obj fields)

/-- The text of a named value. -/
def renderField (p : String × Json) : String :=
  quote p.1 ++ ":" ++ p.2.render

/-- Items are written one by one. -/
theorem renderItems_eq_map (items : List Json) : renderItems items = items.map render := by
  induction items with
  | nil => rfl
  | cons v items ih => rw [renderItems, ih, List.map_cons]

/-- Named values are written one by one. -/
theorem renderFields_eq_map (fields : List (String × Json)) :
    renderFields fields = fields.map renderField := by
  induction fields with
  | nil => rfl
  | cons p fields ih =>
    obtain ⟨name, v⟩ := p
    rw [renderFields, ih, List.map_cons]
    rfl

/-! ### Lists -/

/-- A text **starts** an item of a list that `close` ends, if it is neither blank nor `close` in
front. -/
def Starts (close : Char) (text : List Char) : Prop :=
  ∃ c, text.head? = some c ∧ isSpace c = false ∧ c ≠ close

/-- Whatever follows a text, it starts an item in the same way. -/
theorem Starts.append {close : Char} {text : List Char} (h : Starts close text) (rest : List Char) :
    Starts close (text ++ rest) := by
  obtain ⟨c, htext, hc⟩ := h
  exact ⟨c, by simp [htext], hc⟩

/-- A reader of items neither skips anything of such a text nor takes it for the end. -/
theorem Starts.skip_eq {close : Char} {text : List Char} (h : Starts close text) :
    skip text = text ∧ text.head? ≠ some close := by
  obtain ⟨c, htext, hspace, hclose⟩ := h
  obtain ⟨cs, rfl⟩ := List.head?_eq_some_iff.1 htext
  simp [skip, hspace, hclose]

/-- Such a text is not empty. -/
theorem Starts.length_pos {close : Char} {s : String} (h : Starts close s.toList) :
    0 < s.length := by
  obtain ⟨c, hs, -⟩ := h
  obtain ⟨cs, hcs⟩ := List.head?_eq_some_iff.1 hs
  rw [← String.length_toList, hcs]
  exact Nat.zero_lt_succ _

/-- A character may **close** a list if it ends what is in front of it and is no comma. -/
structure Closes (close : Char) : Prop where
  apart (rest : List Char) : Apart (close :: rest)
  isSpace : isSpace close = false
  ne_comma : ',' ≠ close

/-- A bracket may close a list. -/
theorem closes_bracket : Closes ']' :=
  ⟨fun rest => (delimits_of_ne (by decide) (by decide)).apart rest, rfl, by decide⟩

/-- A brace may close a list. -/
theorem closes_brace : Closes '\x7d' :=
  ⟨fun rest => (delimits_of_ne (by decide) (by decide)).apart rest, rfl, by decide⟩

/-- A comma ends the number in front of it. -/
theorem apart_comma (rest : List Char) : Apart (',' :: rest) :=
  (delimits_of_ne (by decide) (by decide)).apart rest

section

variable {α : Type} {item? : List Char → Option (α × List Char)} {write : α → String} {close : Char}

/-- Behind the first item of a list, there is a comma and the rest of it. -/
theorem toList_intercalate_cons_cons (a b : α) (as : List α) :
    (",".intercalate ((a :: b :: as).map write)).toList =
      (write a).toList ++ ',' :: (",".intercalate ((b :: as).map write)).toList := by
  simp [String.intercalate_cons_cons]

/-- **A list is read back** if its items are, in front of anything that may follow them. -/
theorem items?_intercalate (hclose : Closes close) {as : List α} (hne : as ≠ [])
    (hitem : ∀ a ∈ as, ∀ rest, Apart rest → item? ((write a).toList ++ rest) = some (a, rest))
    (hstarts : ∀ a ∈ as, Starts close (write a).toList) {n : Nat} (hn : as.length ≤ n)
    (rest : List Char) :
    items? item? close n ((",".intercalate (as.map write)).toList ++ close :: rest) =
      some (as, rest) := by
  induction as generalizing n with
  | nil => exact absurd rfl hne
  | cons a as ih =>
    obtain ⟨n, rfl⟩ := Nat.exists_eq_add_one_of_ne_zero (Nat.ne_of_gt (Nat.zero_lt_of_lt hn))
    obtain ⟨ha, has⟩ := List.forall_mem_cons.1 hitem
    obtain ⟨hstart, hstarts⟩ := List.forall_mem_cons.1 hstarts
    cases as with
    | nil =>
      have hskip : skip (close :: rest) = close :: rest := by simp [skip, hclose.isSpace]
      simp only [List.map_cons, List.map_nil, String.intercalate_singleton, items?,
        (hstart.append _).skip_eq.1, ha _ (hclose.apart rest), hskip, Option.bind_eq_bind,
        Option.bind_some, if_true]
    | cons b as =>
      have hrest := ih (by simp) has hstarts (Nat.le_of_succ_le_succ hn)
      have hskip : ∀ cs, skip (',' :: cs) = ',' :: cs := fun _ => rfl
      simp only [toList_intercalate_cons_cons, List.append_assoc, List.cons_append, items?,
        (hstart.append _).skip_eq.1, ha _ (apart_comma _), hskip, Option.bind_eq_bind,
        Option.bind_some,
        if_neg hclose.ne_comma, if_true, hrest, Option.map_some]

/-- So is one without items. The text of a list is long enough for its items, and for each of
them. -/
theorem list?_intercalate (hclose : Closes close) {as : List α} {n : Nat}
    (hn : (",".intercalate (as.map write)).length < n)
    (hstarts : ∀ a ∈ as, Starts close (write a).toList)
    (hitem : ∀ a ∈ as, (write a).length < n → ∀ rest, Apart rest →
      item? ((write a).toList ++ rest) = some (a, rest)) (rest : List Char) :
    list? item? close n ((",".intercalate (as.map write)).toList ++ close :: rest) =
      some (as, rest) := by
  cases as with
  | nil =>
    have hskip : skip (close :: rest) = close :: rest := by simp [skip, hclose.isSpace]
    simp [list?, hskip]
  | cons a as =>
    have hstart : Starts close (",".intercalate ((a :: as).map write)).toList := by
      have ha := hstarts a List.mem_cons_self
      cases as with
      | nil => simpa using ha
      | cons b as =>
        rw [toList_intercalate_cons_cons]
        exact ha.append _
    have hcount : (a :: as).length < n := by
      have hpos : ∀ s ∈ (a :: as).map write, 0 < s.length := by
        simpa only [List.forall_mem_map] using fun a ha => (hstarts a ha).length_pos
      rw [← List.length_map (f := write)]
      exact (length_le_length_intercalate hpos).trans_lt hn
    have hitem' : ∀ b ∈ a :: as, ∀ rest, Apart rest →
        item? ((write b).toList ++ rest) = some (b, rest) := fun b hb =>
      hitem b hb ((length_le_intercalate (List.mem_map_of_mem hb)).trans_lt hn)
    obtain ⟨hskip, hhead⟩ := (hstart.append (close :: rest)).skip_eq
    rw [list?, hskip, if_neg hhead]
    exact items?_intercalate hclose (by simp) hitem' hstarts hcount.le rest

end

/-! ### Reading values back -/

variable {v : Json} {text : List Char}

/-- **A number is a value** in front of what ends it: nothing else opens like it. -/
theorem WritesNumber.value?_eq (h : WritesNumber v text) (n : Nat) {rest : List Char}
    (hrest : Apart rest) : value? (n + 1) (text ++ rest) = some (v, rest) := by
  obtain ⟨c, htext, hne⟩ := h.exists_head?
  obtain ⟨cs, rfl⟩ := List.head?_eq_some_iff.1 htext
  have hword : word? (c :: cs ++ rest) = none := by
    simp [word?, words, (hne 'n' rfl).symm, (hne 't' rfl).symm, (hne 'f' rfl).symm]
  rw [List.cons_append, value?.eq_5 _ _ (by simp [hne '"' rfl]) (by simp [hne '[' rfl])
    (by simp [hne '\x7b' rfl]), ← List.cons_append, hword, Option.none_or, h.number?_eq hrest]

/-- A written value starts an item of a list. -/
theorem Writable.starts (h : v.Writable) : Starts ']' v.render.toList := by
  have hnumber : ∀ {v : Json}, WritesNumber v v.render.toList → Starts ']' v.render.toList := by
    intro v hv
    obtain ⟨c, htext, hne⟩ := hv.exists_head?
    have hspace : isSpace c = false := by
      simp [isSpace, hne ' ' rfl, hne '\t' rfl, hne '\n' rfl, hne '\r' rfl]
    exact ⟨c, htext, hspace, hne ']' rfl⟩
  cases h with
  | null => exact ⟨'n', rfl, by decide⟩
  | bool b => cases b <;> exact ⟨_, rfl, by decide⟩
  | int k => exact hnumber (writesNumber_int k)
  | float hx => exact hnumber (writesNumber_float hx)
  | str s => exact ⟨'"', by simp [render, quote], by decide⟩
  | arr _ => exact ⟨'[', by simp [render], by decide⟩
  | obj _ => exact ⟨'\x7b', by simp [render], by decide⟩

/-- So does a named value. -/
theorem starts_renderField (p : String × Json) : Starts '\x7d' (renderField p).toList :=
  ⟨'"', by simp [renderField, quote], by decide⟩

/-- A named value is read back if its value is. -/
theorem field?_renderField {value : List Char → Option (Json × List Char)} {p : String × Json}
    {rest : List Char} (hstart : Starts ']' p.2.render.toList)
    (hvalue : value (p.2.render.toList ++ rest) = some (p.2, rest)) :
    field? value ((renderField p).toList ++ rest) = some (p, rest) := by
  have htext : (renderField p).toList ++ rest =
      (quote p.1).toList ++ ':' :: (p.2.render.toList ++ rest) := by
    simp [renderField]
  have hskip : ∀ cs, skip (':' :: cs) = ':' :: cs := fun _ => rfl
  simp only [htext, field?, text?_quote, hskip, (hstart.append rest).skip_eq.1, hvalue,
    Option.bind_eq_bind, Option.bind_some, Option.map_some]

/-- Brackets make a text longer than what they enclose. -/
theorem length_lt_of_enclosed {s inner : String} {opening close : Char} {rest : List Char} {n : Nat}
    (htext : s.toList ++ rest = opening :: (inner.toList ++ close :: rest))
    (hn : s.length ≤ n + 1) :
    inner.length < n := by
  have hsame := congrArg List.length htext
  simp only [List.length_append, List.length_cons, String.length_toList] at hsame
  omega

/-- **A value is read back** in front of anything that may follow it. -/
theorem value?_render (h : v.Writable) {n : Nat} (hn : v.render.length ≤ n) {rest : List Char}
    (hrest : Apart rest) : value? n (v.render.toList ++ rest) = some (v, rest) := by
  obtain ⟨n, rfl⟩ :=
    Nat.exists_eq_add_one_of_ne_zero (Nat.ne_of_gt (h.starts.length_pos.trans_le hn))
  -- On the value: its text is longer than those in it, and bounds the levels that are read.
  induction h generalizing n rest with
  | null => simp [value?, render, word?, words]
  | bool b => cases b <;> simp [value?, render, word?, words]
  | int k => exact (writesNumber_int k).value?_eq n hrest
  | float hx => exact (writesNumber_float hx).value?_eq n hrest
  | str s =>
    have hquote : (quote s).toList ++ rest = '"' :: (s.toList.flatMap escape ++ '"' :: rest) := by
      simp [quote]
    have htext := text?_quote s rest
    rw [hquote] at htext
    rw [render, hquote, value?, htext, Option.map_some]
  | @arr items hitems ih =>
    have htext : (render (.arr items)).toList ++ rest =
        '[' :: ((",".intercalate (items.map render)).toList ++ ']' :: rest) := by
      simp [render, renderItems_eq_map]
    have hlength : (",".intercalate (items.map render)).length < n :=
      length_lt_of_enclosed htext hn
    have hitem : ∀ v ∈ items, v.render.length < n → ∀ rest, Apart rest →
        value? n (v.render.toList ++ rest) = some (v, rest) := by
      intro v hv hlt rest hrest
      obtain ⟨n, rfl⟩ := Nat.exists_eq_add_one_of_ne_zero (Nat.ne_of_gt (Nat.zero_lt_of_lt hlt))
      exact ih v hv hrest n hlt.le
    have hlist :=
      list?_intercalate closes_bracket hlength (fun v hv => (hitems v hv).starts) hitem rest
    rw [htext, value?, hlist, Option.map_some]
  | @obj fields hfields ih =>
    have htext : (render (.obj fields)).toList ++ rest =
        '\x7b' :: ((",".intercalate (fields.map renderField)).toList ++ '\x7d' :: rest) := by
      simp [render, renderFields_eq_map]
    have hlength : (",".intercalate (fields.map renderField)).length < n :=
      length_lt_of_enclosed htext hn
    have hfield : ∀ p ∈ fields, (renderField p).length < n → ∀ rest, Apart rest →
        field? (value? n) ((renderField p).toList ++ rest) = some (p, rest) := by
      intro p hp hlt rest hrest
      obtain ⟨n, rfl⟩ := Nat.exists_eq_add_one_of_ne_zero (Nat.ne_of_gt (Nat.zero_lt_of_lt hlt))
      have hle : p.2.render.length ≤ n + 1 := by
        rw [renderField, String.length_append] at hlt
        omega
      exact field?_renderField (hfields p hp).starts (ih p hp hrest n hle)
    have hlist :=
      list?_intercalate closes_brace hlength (fun p _ => starts_renderField p) hfield rest
    rw [htext, value?, hlist, Option.map_some]

/-- **A value is read back** from what it is written as. -/
theorem read?_render (h : v.Writable) : read? v.render = some v := by
  have hrest : Apart [] := by simp [Apart]
  have hvalue := value?_render h le_rfl hrest
  rw [List.append_nil] at hvalue
  rw [read?, h.starts.skip_eq.1, hvalue]
  rfl

/-! ### Lines -/

/-- A quoted text has no control characters. -/
theorem toNat_of_mem_quote (s : String) : ∀ c ∈ (quote s).toList, 32 ≤ c.toNat := by
  have hquote : (quote s).toList = ['"'] ++ (s.toList.flatMap escape ++ ['"']) := by simp [quote]
  have hmark : ∀ c ∈ ['"'], 32 ≤ c.toNat := List.forall_mem_singleton.2 (by decide)
  rw [hquote]
  refine List.forall_mem_append.2 ⟨hmark, List.forall_mem_append.2 ⟨fun c hc => ?_, hmark⟩⟩
  obtain ⟨d, -, hc⟩ := List.mem_flatMap.1 hc
  exact toNat_of_mem_escape d c hc

/-- **A value is written on one line**, without any control character. -/
theorem Writable.toNat_of_mem_render (h : v.Writable) : ∀ c ∈ v.render.toList, 32 ≤ c.toNat := by
  -- Brackets are no control characters.
  have hbetween : ∀ (opening close : Char) {ss : List String}, 32 ≤ opening.toNat →
      32 ≤ close.toNat → (∀ s ∈ ss, ∀ c ∈ s.toList, 32 ≤ c.toNat) →
      ∀ c ∈ opening :: ((",".intercalate ss).toList ++ [close]), 32 ≤ c.toNat := by
    intro opening close ss hopening hclose hss
    have hcomma : ∀ c ∈ ",".toList, 32 ≤ c.toNat := List.forall_mem_singleton.2 (by decide)
    have hjoined := forall_mem_intercalate hcomma hss
    exact List.forall_mem_cons.2
      ⟨hopening, List.forall_mem_append.2 ⟨hjoined, List.forall_mem_singleton.2 hclose⟩⟩
  induction h with
  | null => simp [render]
  | bool b => cases b <;> simp [render]
  | int k => exact (writesNumber_int k).toNat_of_mem
  | float hx => exact (writesNumber_float hx).toNat_of_mem
  | str s => exact toNat_of_mem_quote s
  | @arr items _ ih =>
    have hitems : ∀ s ∈ items.map render, ∀ c ∈ s.toList, 32 ≤ c.toNat := List.forall_mem_map.2 ih
    have hbracketed := hbetween '[' ']' (by decide) (by decide) hitems
    simpa [render, renderItems_eq_map] using hbracketed
  | @obj fields _ ih =>
    have hfields : ∀ s ∈ fields.map renderField, ∀ c ∈ s.toList, 32 ≤ c.toNat := by
      refine List.forall_mem_map.2 fun p hp => ?_
      rw [renderField, String.toList_append, String.toList_append]
      refine List.forall_mem_append.2 ⟨List.forall_mem_append.2 ⟨toNat_of_mem_quote _, ?_⟩, ih p hp⟩
      exact List.forall_mem_singleton.2 (by decide)
    have hbraced := hbetween '\x7b' '\x7d' (by decide) (by decide) hfields
    simpa [render, renderFields_eq_map] using hbraced

end Json

end Reckoner
