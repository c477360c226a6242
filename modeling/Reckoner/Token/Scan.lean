import Reckoner.Decimal.Reading
import Reckoner.Error
import Reckoner.Text.Blank
import Reckoner.Text.Name
import Reckoner.Token.Basic

/-!
# Scanning

From the text of a formula to its tokens. A token is the longest text that belongs to a class:
numerals, names, placeholders, operators, parentheses and the comma. Blanks separate tokens and are
skipped.

Main definitions:

* `Token.scan?` — the token that a character opens, with the characters that belong to it;
* `Lexeme` — a token with its spelling and its place, in bytes, in the formula;
* `scan` — all lexemes of a formula, the end of the formula last.
-/

namespace Reckoner

/-! ### One token -/

/-- The longest name at the front of a text. -/
def scanName (cs : List Char) : List Char :=
  cs.takeWhile isNameChar

/-- The token that is written with a single symbol. -/
def symbolToken? : Char → Option Token
  | '+' => some (.operator .add)
  | '-' => some (.operator .sub)
  | '*' => some (.operator .mul)
  | '/' => some (.operator .div)
  | '^' => some (.operator .pow)
  | '(' => some .openParen
  | ')' => some .closeParen
  | ',' => some .comma
  | _ => none

/-- The token that the character `c` opens when `rest` follows it, with its spelling less the
character `c`. Two asterisks are a power sign, one is a product sign. A numeral is read like any
free-standing number text; a text that cannot be read would be no token. -/
def Token.scan? (c : Char) (rest : List Char) : Option (Token × List Char) :=
  if c = '*' ∧ rest.head? = some '*' then some (.operator .pow, ['*'])
  else
    match symbolToken? c with
    | some token => some (token, [])
    | none =>
      if isNameStart c then
        some (.name (String.ofList (c :: scanName rest)), scanName rest)
      else if c = '$' then
        match rest with
        | d :: _ =>
          if isNameStart d then some (.placeholder (String.ofList (scanName rest)), scanName rest)
          else none
        | [] => none
      else
        match Numeral.scan? (c :: rest) with
        | some (n, _) =>
          (Binary64.parse? (String.ofList n.text)).map fun x => (.number x, n.text.drop 1)
        | none => none

/-! ### All tokens -/

/-- A token with its spelling and the byte offset of its first character. -/
structure Lexeme where
  /-- The token. -/
  token : Token
  /-- The characters of the formula it was scanned from. -/
  spelling : String
  /-- The byte offset of the first of them. -/
  start : Nat
  deriving DecidableEq

/-- The byte offset behind a lexeme. -/
def Lexeme.stop (l : Lexeme) : Nat :=
  l.start + l.spelling.utf8ByteSize

/-- The size of a text in bytes. -/
def byteSize : List Char → Nat
  | [] => 0
  | c :: cs => c.utf8Size + byteSize cs

/-- The lexemes of a text that starts at the byte offset `offset`. The first character that opens
no token is an error. -/
def scanFrom (offset : Nat) : (cs : List Char) → Except FormulaError (List Lexeme)
  | [] => .ok [⟨.eof, "", offset⟩]
  | c :: rest =>
    if isBlank c then scanFrom (offset + c.utf8Size) rest
    else
      match Token.scan? c rest with
      | none => .error (.unexpectedChar c offset)
      | some (token, tail) => do
        let lexemes ← scanFrom (offset + byteSize (c :: tail)) (rest.drop tail.length)
        .ok (⟨token, String.ofList (c :: tail), offset⟩ :: lexemes)
termination_by cs => cs.length
decreasing_by
  · simp
  · simp only [List.length_drop, List.length_cons]
    omega

/-- The lexemes of a formula. The last is the end of the formula, an empty text behind the last
character. -/
def scan (formula : String) : Except FormulaError (List Lexeme) :=
  scanFrom 0 formula.toList

end Reckoner
