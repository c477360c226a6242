import Reckoner.Decimal.Reading
import Reckoner.Limits

/-!
# Command-Line Arguments

What the arguments of the program ask for. The first word that is not a flag names a command:

* `eval FORMULA [NUMBER]…`, also spelled `calc`, with the options `--json`, `--max-length N` and
  `--max-depth N`,
* `tokens FORMULA`,
* `tour`,
* `help`.

Options stand anywhere after the command, with the value of an option in the next word or after an
equals sign; after `--` no word is an option. A formula may open with a hyphen: where the formula
is expected, a word that is not made of known options is the formula. A number may be negative. The
flags `-v`, `--verbose`, `-h` and `--help` are known everywhere, `-V` and `--version` before the
command. For `-v` and `--verbose` the program keeps a log of what it does, with times, and writes it
to the error output; no command and no outcome has this log.

Main definitions:

* `Command` — what is asked for;
* `Command.ofArguments?` — reads the arguments; none if they are not understood.
-/

namespace Reckoner

/-- What the program is asked to do. -/
inductive Command where
  /-- Name the program and its version. -/
  | version
  /-- Explain the arguments. -/
  | help
  /-- Evaluate a formula, and report in JSON or in plain text. -/
  | eval (formula : String) (args : List Binary64) (json : Bool) (limits : Limits)
  /-- List the tokens of a formula. -/
  | tokens (formula : String)
  /-- Show the examples. -/
  | tour

namespace Command

/-! ### Words -/

/-- The shape of a word. -/
inductive Word where
  /-- Two hyphens alone. -/
  | separator
  /-- Two hyphens and a name, and the value after an equals sign if there is one. -/
  | long (name : List Char) (value : Option (List Char))
  /-- A hyphen and letters. -/
  | short (letters : List Char)
  /-- Any other text. -/
  | text

/-- The shape of a word. A hyphen alone is a text. -/
def Word.ofText (s : String) : Word :=
  match s.toList with
  | ['-', '-'] => separator
  | '-' :: '-' :: name =>
    let value := match name.dropWhile (· ≠ '=') with
      | [] => none
      | _ :: value => some value
    long (name.takeWhile (· ≠ '=')) value
  | '-' :: c :: letters => short (c :: letters)
  | _ => text

/-- What a word says. -/
inductive Sense where
  /-- No option follows. -/
  | separator
  /-- A formula or a number. -/
  | positional
  /-- The verbose flag, which asks for a log and changes nothing else of what is asked for. -/
  | verbose
  /-- Help is asked for. -/
  | help
  /-- The version is asked for. -/
  | version
  /-- An option, known or not, with the value written after an equals sign. -/
  | option (name : List Char) (value : Option (List Char))
  /-- The word is not understood. -/
  | unknown

/-- What the letters of a word ask for, from left to right; a letter that asks for an answer of its
own leaves the rest unread. -/
def lettersSense (versionKnown : Bool) : List Char → Sense
  | [] => .verbose
  | 'v' :: letters => lettersSense versionKnown letters
  | 'h' :: _ => .help
  | 'V' :: _ => if versionKnown then .version else .unknown
  | _ => .unknown

/-- What a name asks for. -/
def nameSense (name : List Char) (value : Option (List Char)) : Sense :=
  if name = "verbose".toList then if value.isSome then .unknown else .verbose
  else if name = "help".toList then if value.isSome then .unknown else .help
  else .option name value

/-- Whether the letters after a hyphen make up a negative number: digits with at most one point,
not in front and before any exponent, and at most one `e` or `E`, with digits on both sides and
no sign. -/
def looksNumeric (letters : List Char) : Bool :=
  let whole := letters.takeWhile Char.isDigit
  let rest := letters.dropWhile Char.isDigit
  let rest := match rest with
    | '.' :: r => if whole = [] then rest else r.dropWhile Char.isDigit
    | _ => rest
  match rest with
  | [] => true
  | mark :: digits =>
    decide (mark = 'e' ∨ mark = 'E') && whole ≠ [] && digits ≠ [] && digits.all Char.isDigit

/-- What a word says after the command, where a formula or where a number may stand. Letters that
are not all flags may open a formula, and letters that look numeric a number. -/
def Word.sense (formulaNext numberNext : Bool) : Word → Sense
  | separator => .separator
  | text => .positional
  | short letters =>
    let isFormula := formulaNext && letters.any fun c => c ≠ 'v' ∧ c ≠ 'h'
    let isNumber := numberNext && looksNumeric letters
    if isFormula || isNumber then .positional else lettersSense false letters
  | long name value => nameSense name value

/-- Reads a count: digits after an optional plus sign, for a number that fits into 64 bits. -/
def count? (cs : List Char) : Option Nat :=
  let digits := match cs with
    | '+' :: rest => rest
    | _ => cs
  if digits ≠ [] ∧ digits.all Char.isDigit then
    let n := Nat.ofDigitChars 10 digits 0
    if n < UInt64.size then some n else none
  else none

/-! ### The commands -/

/-- What has been read of the arguments of `eval`. -/
structure EvalState where
  /-- The formula. -/
  formula : Option String := none
  /-- The numbers, the last one first. -/
  args : List Binary64 := []
  /-- Whether a report in JSON is asked for. -/
  json : Bool := false
  /-- The limit on the length. -/
  maxLength : Option Nat := none
  /-- The limit on the depth. -/
  maxDepth : Option Nat := none

namespace EvalState

/-- Takes a word that is no option: the formula first, then numbers. -/
def positional? (s : EvalState) (word : String) : Option EvalState :=
  match s.formula with
  | none => some { s with formula := some word }
  | some _ => (Binary64.parse? word).map fun x => { s with args := x :: s.args }

/-- Asks for a report in JSON, once. -/
def setJson? (s : EvalState) : Option EvalState :=
  if s.json then none else some { s with json := true }

/-- Sets a limit, each once. -/
def setLimit? (s : EvalState) (name value : List Char) : Option EvalState :=
  if name = "max-length".toList then
    if s.maxLength.isSome then none
    else (count? value).map fun n => { s with maxLength := some n }
  else
    if s.maxDepth.isSome then none
    else (count? value).map fun n => { s with maxDepth := some n }

/-- The command that the words read so far make up. -/
def command? (s : EvalState) : Option Command :=
  let usual : Limits := {}
  s.formula.map fun formula =>
    .eval formula s.args.reverse s.json
      ⟨s.maxLength.getD usual.maxLength, s.maxDepth.getD usual.maxDepth⟩

/-- Reads the words after `eval`. -/
def read? (s : EvalState) : List String → Option Command
  | [] => s.command?
  | word :: words =>
    match (Word.ofText word).sense s.formula.isNone s.formula.isSome with
    | .separator => (words.foldlM positional? s).bind command?
    | .positional => (s.positional? word).bind (read? · words)
    | .verbose => s.read? words
    | .help => some .help
    | .version => none
    | .unknown => none
    | .option name value =>
      if name = "max-length".toList ∨ name = "max-depth".toList then
        match value, words with
        | some value, words => (s.setLimit? name value).bind (read? · words)
        | none, value :: words => (s.setLimit? name value.toList).bind (read? · words)
        | none, [] => none
      else if name = "json".toList then
        if value.isSome then none else s.setJson?.bind (read? · words)
      else if s.formula.isNone then
        (s.positional? word).bind (read? · words)
      else none

end EvalState

/-- Reads the words after `tokens`, where the formula may have been read. -/
def readTokens? (formula : Option String) : List String → Option Command
  | [] => formula.map .tokens
  | word :: words =>
    match (Word.ofText word).sense formula.isNone false with
    | .separator =>
      match formula.toList ++ words with
      | [formula] => some (.tokens formula)
      | _ => none
    | .verbose => readTokens? formula words
    | .help => some .help
    | .positional => if formula.isNone then readTokens? (some word) words else none
    | .option _ _ => if formula.isNone then readTokens? (some word) words else none
    | _ => none

/-- Reads the words after `tour`. -/
def readTour? : List String → Option Command
  | [] => some .tour
  | word :: words =>
    match (Word.ofText word).sense false false with
    | .separator => if words = [] then some .tour else none
    | .verbose => readTour? words
    | .help => some .help
    | _ => none

/-- Reads the words after `help`: nothing, or the name of a command. -/
def readHelp? : List String → Option Command
  | [] => some .help
  | [topic] => if topic ∈ ["eval", "calc", "tokens", "tour", "help"] then some .help else none
  | _ => none

/-- Reads the words after the name of a command. -/
def readCommand? (name : String) (words : List String) : Option Command :=
  if name = "eval" ∨ name = "calc" then EvalState.read? {} words
  else if name = "tokens" then readTokens? none words
  else if name = "tour" then readTour? words
  else if name = "help" then readHelp? words
  else none

/-- What a word says before the command. -/
def Word.leadingSense : Word → Sense
  | separator => .unknown
  | text => .positional
  | short letters => lettersSense true letters
  | long name value =>
    if name = "version".toList ∧ value = none then .version else nameSense name value

/-- Reads the arguments of the program. The flags `-v` and `--verbose` are read and dropped: the log
that they ask for is no part of a command. -/
def ofArguments? : List String → Option Command
  | [] => none
  | word :: words =>
    match (Word.ofText word).leadingSense with
    | .positional => readCommand? word words
    | .verbose => ofArguments? words
    | .help => some .help
    | .version => some .version
    | _ => none

end Command

end Reckoner
