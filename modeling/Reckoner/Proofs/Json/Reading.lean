import Reckoner.Decimal.Reading
import Reckoner.Json

/-!
# Reading JSON

A reader of JSON texts, against which written values are held. It takes what it reads off the front
of a text and leaves what follows. Blanks may stand between the parts of a text. A number has no
zeros in front and digits on both sides of its point; it is an integer if it has neither point nor
exponent, but for `-0`, which keeps its sign. Characters in quotes may be escaped by a letter or by
their code units in UTF-16, a surrogate only together with its other half.

Main definition: `Json.read?`, the value of a JSON text.
-/

namespace Reckoner

/-! ### Numbers -/

/-- A numeral is **strict** if it opens with a digit, no other digit follows a zero in front, and a
point has digits behind it. -/
def Numeral.IsStrict (n : Numeral) : Prop :=
  n.whole ≠ [] ∧ (n.whole.head? = some '0' → n.whole = ['0']) ∧ n.fraction ≠ some []

instance (n : Numeral) : Decidable n.IsStrict :=
  inferInstanceAs (Decidable (_ ∧ _ ∧ _))

/-- Whether a numeral has neither point nor exponent. -/
def Numeral.isInteger (n : Numeral) : Bool :=
  n.fraction.isNone && n.exponent.isNone

namespace Json

variable {α : Type}

/-- The number that a numeral and a sign stand for. -/
def ofNumeral (negative : Bool) (n : Numeral) : Json :=
  if n.isInteger ∧ ¬ (negative ∧ n.mantissa = 0) then
    .int (if negative then -(n.mantissa : Int) else n.mantissa)
  else
    .float (if negative then n.value.neg else n.value)

/-- Reads a number behind its sign. -/
def unsigned? (negative : Bool) (cs : List Char) : Option (Json × List Char) :=
  match Numeral.scan? cs with
  | some (n, rest) => if n.IsStrict then some (ofNumeral negative n, rest) else none
  | none => none

/-- Reads a number. -/
def number? : List Char → Option (Json × List Char)
  | '-' :: cs => unsigned? true cs
  | cs => unsigned? false cs

/-! ### Texts -/

/-- The value of a hexadecimal digit. -/
def hexDigit? (c : Char) : Option Nat :=
  if c.isDigit then some (c.toNat - '0'.toNat)
  else if 'a' ≤ c ∧ c ≤ 'f' then some (c.toNat - 'a'.toNat + 10)
  else if 'A' ≤ c ∧ c ≤ 'F' then some (c.toNat - 'A'.toNat + 10)
  else none

/-- Reads a code unit, which has four hexadecimal digits. -/
def unit? : List Char → Option (Nat × List Char)
  | a :: b :: c :: d :: cs => do
    let a ← hexDigit? a
    let b ← hexDigit? b
    let c ← hexDigit? c
    let d ← hexDigit? d
    some (((a * 16 + b) * 16 + c) * 16 + d, cs)
  | _ => none

/-- Reads the code units of a character behind the first `u`. -/
def coded? (cs : List Char) : Option (Char × List Char) := do
  let (high, cs) ← unit? cs
  if high < 0xd800 ∨ 0xe000 ≤ high then some (Char.ofNat high, cs)
  else
    match cs with
    | '\\' :: 'u' :: cs =>
      let (low, cs) ← unit? cs
      if high < 0xdc00 ∧ 0xdc00 ≤ low ∧ low < 0xe000 then
        some (Char.ofNat (0x10000 + (high - 0xd800) * 0x400 + (low - 0xdc00)), cs)
      else none
    | _ => none

/-- The character that a letter behind a backslash stands for. -/
def unescape? : Char → Option Char
  | '"' => some '"'
  | '\\' => some '\\'
  | '/' => some '/'
  | 'b' => some '\x08'
  | 'f' => some '\x0c'
  | 'n' => some '\n'
  | 'r' => some '\r'
  | 't' => some '\t'
  | _ => none

/-- Reads a character in quotes. -/
def character? : List Char → Option (Char × List Char)
  | '\\' :: 'u' :: cs => coded? cs
  | '\\' :: c :: cs => (unescape? c).map (·, cs)
  | c :: cs => if c = '"' ∨ c = '\\' ∨ c.toNat < 32 then none else some (c, cs)
  | [] => none

/-- Reads characters, fewer than `n` of them, up to the closing quote. -/
def characters? : (n : Nat) → List Char → Option (List Char × List Char)
  | 0, _ => none
  | n + 1, cs =>
    match character? cs with
    | some (c, cs) => (characters? n cs).map fun p => (c :: p.1, p.2)
    | none =>
      match cs with
      | '"' :: cs => some ([], cs)
      | _ => none

/-- Reads a text in quotes. -/
def text? : List Char → Option (String × List Char)
  | '"' :: cs => (characters? cs.length cs).map fun p => (String.ofList p.1, p.2)
  | _ => none

/-! ### Values -/

/-- Whether a character may stand between the parts of a text. -/
def isSpace (c : Char) : Bool :=
  c = ' ' || c = '\t' || c = '\n' || c = '\r'

/-- What follows the blanks at the front of a text. -/
def skip (cs : List Char) : List Char :=
  cs.dropWhile isSpace

/-- Reads at least one item, and at most `n` of them, with commas between them, up to a closing
bracket. -/
def items? (item? : List Char → Option (α × List Char)) (close : Char) :
    (n : Nat) → List Char → Option (List α × List Char)
  | 0, _ => none
  | n + 1, cs => do
    let (a, cs) ← item? (skip cs)
    match skip cs with
    | [] => none
    | c :: cs =>
      if c = close then some ([a], cs)
      else if c = ',' then (items? item? close n cs).map fun p => (a :: p.1, p.2)
      else none

/-- Reads any number of items, but at most `n`, up to a closing bracket. -/
def list? (item? : List Char → Option (α × List Char)) (close : Char) (n : Nat) (cs : List Char) :
    Option (List α × List Char) :=
  if (skip cs).head? = some close then some ([], (skip cs).tail) else items? item? close n cs

/-- Reads a name and a value. -/
def field? (value? : List Char → Option (Json × List Char)) (cs : List Char) :
    Option ((String × Json) × List Char) := do
  let (name, cs) ← text? cs
  match skip cs with
  | ':' :: cs => (value? (skip cs)).map fun p => ((name, p.1), p.2)
  | _ => none

/-- The words that are values. -/
def words : List (List Char × Json) :=
  [("null".toList, .null), ("true".toList, .bool true), ("false".toList, .bool false)]

/-- Reads one of these words. -/
def word? (cs : List Char) : Option (Json × List Char) :=
  words.findSome? fun (w, v) => if w <+: cs then some (v, cs.drop w.length) else none

/-- Reads a value that has fewer than `n` values one in another, and lists of at most as many
items. -/
def value? : (n : Nat) → List Char → Option (Json × List Char)
  | 0, _ => none
  | n + 1, cs =>
    match cs with
    | '"' :: _ => (text? cs).map fun p => (.str p.1, p.2)
    | '[' :: cs => (list? (value? n) ']' n cs).map fun p => (.arr p.1, p.2)
    | '\x7b' :: cs => (list? (field? (value? n)) '\x7d' n cs).map fun p => (.obj p.1, p.2)
    | _ => (word? cs).or (number? cs)

/-- **The value of a JSON text**, if it is one. A text is long enough for all that it is made of. -/
def read? (text : String) : Option Json :=
  match value? text.length (skip text.toList) with
  | some (v, rest) => if skip rest = [] then some v else none
  | none => none

-- Sign and surrogates are kept, and `null` is no number.
example : read? " [-0, -0.0, 42, null, \"\\ud83d\\ude00\\n\"]" =
    some (.arr [.float (.zero true), .float (.zero true), .int 42, .null, .str "😀\n"]) := by
  rfl

example : read? "[01]" = none ∧ read? "[\"a\", 1.]" = none ∧ read? "[NaN]" = none := by
  decide

end Json

end Reckoner
