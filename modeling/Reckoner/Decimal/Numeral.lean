/-!
# Decimal Numerals

A numeral is written `D+ ('.' D*)?` or `'.' D+`, with an optional exponent `[eE] [+-]? D+`.
This module holds its parts and the scanner that takes the longest numeral off the front of a
text. An exponent counts only if digits follow, so `2e` is the numeral `2` followed by a letter.

Main definitions:

* `Exponent`, `Numeral` — the parts as they are spelled, with `text` to put them together;
* `Numeral.scan?` — the longest numeral at the front of a text, and what follows it;
* `Numeral.mantissa`, `Numeral.scale` — the value of a numeral is `mantissa · 10 ^ scale`.

Main statement: `Numeral.text_append_scan?`, scanning loses no character.
-/

namespace Reckoner

/-- The exponent of a numeral as it is spelled. -/
structure Exponent where
  /-- The letter that opens it, `e` or `E`. -/
  mark : Char
  /-- The sign, if one is written. -/
  sign : Option Char
  /-- The digits. -/
  digits : List Char
  deriving DecidableEq

/-- A numeral as it is spelled. -/
structure Numeral where
  /-- The digits before the point. -/
  whole : List Char
  /-- The digits after the point, if there is a point. -/
  fraction : Option (List Char)
  /-- The exponent, if one is written. -/
  exponent : Option Exponent
  deriving DecidableEq

namespace Exponent

/-- The characters of an exponent. -/
def text (e : Exponent) : List Char :=
  e.mark :: (e.sign.toList ++ e.digits)

/-- The power of ten it stands for. -/
def value (e : Exponent) : Int :=
  let n : Int := Nat.ofDigitChars 10 e.digits 0
  if e.sign = some '-' then -n else n

/-- The sign at the front of a text, and what follows it. -/
def scanSign : List Char → Option Char × List Char
  | c :: rest => if c = '+' ∨ c = '-' then (some c, rest) else (none, c :: rest)
  | [] => (none, [])

/-- The exponent at the front of a text, and what follows it. -/
def scan? : List Char → Option (Exponent × List Char)
  | [] => none
  | c :: rest =>
    let signed := scanSign rest
    let digits := signed.2.takeWhile Char.isDigit
    if (c = 'e' ∨ c = 'E') ∧ digits ≠ [] then
      some (⟨c, signed.1, digits⟩, signed.2.dropWhile Char.isDigit)
    else
      none

end Exponent

namespace Numeral

/-- The characters of a numeral. -/
def text (n : Numeral) : List Char :=
  n.whole ++ (n.fraction.map ('.' :: ·)).getD [] ++ (n.exponent.map Exponent.text).getD []

/-- The digits on both sides of the point, read as one natural. -/
def mantissa (n : Numeral) : Nat :=
  Nat.ofDigitChars 10 (n.whole ++ n.fraction.getD []) 0

/-- The power of ten that scales the mantissa: the exponent, less one for each digit after the
point. -/
def scale (n : Numeral) : Int :=
  (n.exponent.map Exponent.value).getD 0 - (n.fraction.getD []).length

/-- The fraction at the front of a text, and what follows it. -/
def scanFraction : List Char → Option (List Char) × List Char
  | '.' :: rest => (some (rest.takeWhile Char.isDigit), rest.dropWhile Char.isDigit)
  | cs => (none, cs)

/-- The numeral with the given digits and the exponent at the front of a text, if there is one,
and what follows it. -/
def scanTail (whole : List Char) (fraction : Option (List Char)) (cs : List Char) :
    Numeral × List Char :=
  match Exponent.scan? cs with
  | some (e, rest) => (⟨whole, fraction, some e⟩, rest)
  | none => (⟨whole, fraction, none⟩, cs)

/-- The longest numeral at the front of a text, and what follows it. A numeral has a digit
before the point or after it. -/
def scan? (cs : List Char) : Option (Numeral × List Char) :=
  let whole := cs.takeWhile Char.isDigit
  let part := scanFraction (cs.dropWhile Char.isDigit)
  if whole = [] ∧ part.1.getD [] = [] then none else some (scanTail whole part.1 part.2)

end Numeral

/-! ### Nothing is lost -/

/-- The sign that is scanned and what is left make up the text. -/
theorem Exponent.scanSign_append (cs : List Char) :
    (scanSign cs).1.toList ++ (scanSign cs).2 = cs := by
  unfold scanSign
  split
  · split <;> simp
  · rfl

/-- An exponent that is scanned is written in front of what is left. -/
theorem Exponent.text_append_scan? {cs rest : List Char} {e : Exponent}
    (h : scan? cs = some (e, rest)) : e.text ++ rest = cs := by
  unfold scan? at h
  split at h
  · simp at h
  · dsimp only at h
    split at h
    · simp only [Option.some.injEq, Prod.mk.injEq] at h
      obtain ⟨rfl, rfl⟩ := h
      simp [text, List.takeWhile_append_dropWhile, scanSign_append]
    · simp at h

/-- The fraction that is scanned, with its point, and what is left make up the text. -/
theorem Numeral.scanFraction_append (cs : List Char) :
    ((scanFraction cs).1.map ('.' :: ·)).getD [] ++ (scanFraction cs).2 = cs := by
  unfold scanFraction
  split <;> simp [List.takeWhile_append_dropWhile]

/-- Behind a whole part and a fraction, the tail takes an exponent or nothing: the numeral and what
is left are the text. -/
theorem Numeral.scanTail_append (whole : List Char) (fraction : Option (List Char))
    (cs : List Char) :
    (scanTail whole fraction cs).1.text ++ (scanTail whole fraction cs).2 =
      whole ++ (fraction.map ('.' :: ·)).getD [] ++ cs := by
  unfold scanTail
  split
  · next e rest h => simp [text, Exponent.text_append_scan? h]
  · simp [text]

/-- **Scanning loses nothing**: the numeral and what follows it make up the text. -/
theorem Numeral.text_append_scan? {cs rest : List Char} {n : Numeral}
    (h : scan? cs = some (n, rest)) : n.text ++ rest = cs := by
  unfold scan? at h
  dsimp only at h
  split at h
  · simp at h
  · simp only [Option.some.injEq] at h
    have hn := scanTail_append (cs.takeWhile Char.isDigit)
      (scanFraction (cs.dropWhile Char.isDigit)).1 (scanFraction (cs.dropWhile Char.isDigit)).2
    rw [h, List.append_assoc, scanFraction_append, List.takeWhile_append_dropWhile] at hn
    exact hn

end Reckoner
