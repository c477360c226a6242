import Reckoner.Formula

/-!
# Reports

What the program prints about a formula: its value or its error, in plain text or in JSON, and the
list of its tokens.

Main definitions:

* `Outcome` — exit status, output and error output of a run;
* `reportPlain`, `reportJson` — the two reports on an evaluation;
* `reportTokens` — the listing of tokens.
-/

namespace Reckoner

/-- What a run of the program leaves behind, but for the log that `-v` and `--verbose` ask for. -/
structure Outcome where
  /-- The exit status: zero for success. -/
  exit : Nat
  /-- The output. -/
  stdout : String
  /-- The error output, without the log. -/
  stderr : String
  deriving DecidableEq

/-- The outcome of a run that prints a text and succeeds. -/
def Outcome.success (stdout : String) : Outcome :=
  ⟨0, stdout, ""⟩

/-- A text with each of its lines set in by four spaces. -/
def indented (text : String) : String :=
  String.ofList ("    ".toList ++
    text.toList.flatMap fun c => if c = '\n' then "\n    ".toList else [c])

/-- The outcome of a run that fails to do something, for a reason. -/
def Outcome.failure (task : String) (cause : FormulaError) : Outcome :=
  ⟨1, "", s!"Error: Failed to {task}\n\nCaused by:\n{indented cause.message}\n"⟩

/-! ### Evaluation -/

/-- The plain report: the value on a line, or the failure. -/
def reportPlain (formula : String) (result : Except FormulaError Binary64) : Outcome :=
  match result with
  | .ok x => .success (x.text ++ "\n")
  | .error e => .failure s!"evaluate '{formula}'" e

/-- An error as a JSON value: its kind and its message. -/
def FormulaError.toJson (e : FormulaError) : Json :=
  .obj [("kind", .str e.kind.name), ("message", .str e.message)]

/-- The kind of errors with the given JSON form: its name, or an object whose only field has this
name and no value. -/
def ErrorKind.ofJson? : Json → Option ErrorKind
  | .str name => all.find? (·.name == name)
  | .obj [(name, .null)] => all.find? (·.name == name)
  | _ => none

/-- An evaluation as a JSON value: the formula, and either its value or its error. -/
def evaluationJson (formula : String) (result : Except FormulaError Binary64) : Json :=
  match result with
  | .ok x => .obj [("formula", .str formula), ("result", .float x)]
  | .error e => .obj [("formula", .str formula), ("error", e.toJson)]

/-- The report in JSON, on a line; an error shows in the exit status as well. -/
def reportJson (formula : String) (result : Except FormulaError Binary64) : Outcome :=
  let line := (evaluationJson formula result).render ++ "\n"
  match result with
  | .ok _ => ⟨0, line, ""⟩
  | .error _ => ⟨1, line, ""⟩

/-! ### Tokens -/

/-- A token in a listing: its class, and what tells it from others of the class. -/
def Token.listing : Token → String
  | number x => "Number(" ++ x.write .detailed ++ ")"
  | name s => "Identifier(\"" ++ s ++ "\")"
  | placeholder s => "Placeholder(\"" ++ s ++ "\")"
  | operator op => "Operator(" ++ op.symbolName ++ ")"
  | openParen => "LParen"
  | closeParen => "RParen"
  | comma => "Comma"
  | eof => "Eof"

/-- A text filled up with spaces on the left to four columns. -/
def alignRight (s : String) : String :=
  String.ofList (List.replicate (4 - s.length) ' ') ++ s

/-- A text filled up with spaces on the right to four columns. -/
def alignLeft (s : String) : String :=
  s ++ String.ofList (List.replicate (4 - s.length) ' ')

/-- The line of a lexeme: its place in bytes, and its token. -/
def Lexeme.line (l : Lexeme) : String :=
  alignRight (toString l.start) ++ ".." ++ alignLeft (toString l.stop) ++ " " ++
    l.token.listing ++ "\n"

/-- The listing of the tokens of a formula, or the failure to scan it. -/
def reportTokens (formula : String) : Outcome :=
  match scan formula with
  | .ok lexemes => .success (String.join (lexemes.map Lexeme.line))
  | .error e => .failure s!"tokenize '{formula}'" e

end Reckoner
