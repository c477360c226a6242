import Reckoner.Decimal.Layout

/-!
# JSON

JSON values and their compact text. Numbers are integers or double-precision numbers; which of the
two a number is, its text decides: one with a point or an exponent is not an integer.

Main definitions:

* `Json` — the values;
* `Json.quote` — a text in quotes, with its escapes;
* `Json.render` — the compact text of a value.
-/

namespace Reckoner

/-- A JSON value. -/
inductive Json where
  /-- The value `null`. -/
  | null
  /-- A truth value. -/
  | bool (value : Bool)
  /-- A number without point and exponent. -/
  | int (value : Int)
  /-- A number with a point or an exponent. -/
  | float (value : Binary64)
  /-- A text. -/
  | str (value : String)
  /-- A list of values. -/
  | arr (items : List Json)
  /-- Named values in order. -/
  | obj (fields : List (String × Json))

namespace Json

/-- A character inside quotes. Quotes, backslashes and control characters are escaped; the rest
stands for itself. -/
def escape (c : Char) : List Char :=
  if c = '"' then ['\\', '"']
  else if c = '\\' then ['\\', '\\']
  else if c.toNat = 8 then ['\\', 'b']
  else if c.toNat = 9 then ['\\', 't']
  else if c.toNat = 10 then ['\\', 'n']
  else if c.toNat = 12 then ['\\', 'f']
  else if c.toNat = 13 then ['\\', 'r']
  else if c.toNat < 32 then
    ['\\', 'u', '0', '0', Nat.digitChar (c.toNat / 16), Nat.digitChar (c.toNat % 16)]
  else [c]

/-- A text in quotes. -/
def quote (s : String) : String :=
  String.ofList ('"' :: (s.toList.flatMap escape ++ ['"']))

/-- A double-precision number; JSON has no word for NaN and the infinities. -/
def renderFloat (x : Binary64) : String :=
  if x.isFinite then x.write .interchange else "null"

mutual

/-- The compact text of a value. -/
def render : Json → String
  | null => "null"
  | bool b => if b then "true" else "false"
  | int n => toString n
  | float x => renderFloat x
  | str s => quote s
  | arr items => "[" ++ ",".intercalate (renderItems items) ++ "]"
  | obj fields => "\x7b" ++ ",".intercalate (renderFields fields) ++ "\x7d"

/-- The texts of the items of a list. -/
def renderItems : List Json → List String
  | [] => []
  | v :: items => v.render :: renderItems items

/-- The texts of named values. -/
def renderFields : List (String × Json) → List String
  | [] => []
  | (name, v) :: fields => (quote name ++ ":" ++ v.render) :: renderFields fields

end

end Json

end Reckoner
