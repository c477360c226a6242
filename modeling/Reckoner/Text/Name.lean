/-!
# Names

Names are written `[A-Za-z_][A-Za-z0-9_]*`. The names of constants and functions are recognised in
any mix of upper and lower case; only ASCII letters have a case here, so that no other letter
ever matches one.
-/

namespace Reckoner

/-- Whether a character opens a name. -/
def isNameStart (c : Char) : Bool :=
  c.isAlpha || c == '_'

/-- Whether a character continues a name. -/
def isNameChar (c : Char) : Bool :=
  c.isAlphanum || c == '_'

/-- Whether two texts are the same but for the case of their ASCII letters. -/
def sameButCase (a b : String) : Bool :=
  a.toList.map Char.toLower == b.toList.map Char.toLower

/-- What opens a name also continues one. -/
theorem isNameChar_of_isNameStart {c : Char} (h : isNameStart c = true) : isNameChar c = true := by
  simp only [isNameStart, isNameChar, Char.isAlphanum, Bool.or_eq_true] at *
  exact h.imp_left Or.inl

/-- A text is like itself. -/
theorem sameButCase_self (a : String) : sameButCase a a = true :=
  beq_self_eq_true _

/-- Likeness but for case does not depend on the order. -/
theorem sameButCase_comm (a b : String) : sameButCase a b = sameButCase b a :=
  Bool.beq_comm

/-- Likeness but for case carries over from name to name. -/
theorem sameButCase_trans {a b c : String} (hab : sameButCase a b = true)
    (hbc : sameButCase b c = true) : sameButCase a c = true := by
  simp only [sameButCase, beq_iff_eq] at *
  exact hab.trans hbc

/-- In a table whose entries differ in more than the case of their names, a name in any mix of
upper and lower case finds the entry it belongs to. -/
theorem find?_sameButCase_eq_some_iff {α : Type} {table : List α} {nameOf : α → String}
    (h : ∀ a ∈ table, ∀ b ∈ table, sameButCase (nameOf a) (nameOf b) = true → a = b) {a : α}
    (ha : a ∈ table) {name : String} :
    table.find? (fun b => sameButCase (nameOf b) name) = some a ↔
      sameButCase (nameOf a) name = true := by
  constructor
  · intro hfind
    have hname := List.find?_some hfind
    exact hname
  · intro hname
    have hsome : (table.find? fun b => sameButCase (nameOf b) name).isSome = true := by
      rw [List.find?_isSome]
      exact ⟨a, ha, hname⟩
    obtain ⟨b, hb⟩ := Option.isSome_iff_exists.1 hsome
    have hbname := List.find?_some hb
    rw [sameButCase_comm] at hname
    rw [hb, h b (List.mem_of_find?_eq_some hb) a ha (sameButCase_trans hbname hname)]

end Reckoner
