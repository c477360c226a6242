import Reckoner.Formula

/-!
# The Tour

Example formulas by topic, each shown with its value or its error.
-/

namespace Reckoner

/-- A formula with arguments for its placeholders. -/
structure Example where
  /-- The formula. -/
  formula : String
  /-- The arguments. -/
  args : List Int := []

/-- The topics of the tour and their examples. -/
def tourTopics : List (String × List Example) :=
  [ ("Basic Arithmetic", [⟨"2 + 3", []⟩, ⟨"10 - 5", []⟩, ⟨"4 * 6", []⟩, ⟨"15 / 3", []⟩]),
    ("Exponentiation", [⟨"2 ^ 3", []⟩, ⟨"3 ** 2", []⟩]),
    ("Mathematical Constants", [⟨"PI", []⟩, ⟨"E", []⟩]),
    ("Mathematical Functions",
      [⟨"sqrt(16)", []⟩, ⟨"pow(2, 3)", []⟩, ⟨"abs(-5)", []⟩, ⟨"round(3.6)", []⟩,
        ⟨"min(5, 3, 8)", []⟩, ⟨"max(5, 3, 8)", []⟩]),
    ("Trigonometric Functions", [⟨"sin(0)", []⟩, ⟨"cos(0)", []⟩, ⟨"sin(PI/2)", []⟩]),
    ("Using Arguments",
      [⟨"$arg0 + $arg1", [5, 3]⟩, ⟨"$arg0 * $arg1", [4, 6]⟩,
        ⟨"sqrt($arg0) + $arg1", [16, 5]⟩]),
    ("Using Named Arguments",
      [⟨"$num1 + $num2", [5, 3]⟩, ⟨"$quantity * $price", [4, 6]⟩,
        ⟨"sqrt($base) + $offset", [16, 5]⟩]),
    ("Complex Formulas",
      [⟨"(2 + 3) * 4", []⟩, ⟨"2 + (3 * 4)", []⟩, ⟨"sqrt(16) + pow(2, 3)", []⟩]),
    ("Error Handling", [⟨"2 +", []⟩, ⟨"1 / 0", []⟩]) ]

/-- An example with its arguments. -/
def Example.label (e : Example) : String :=
  if e.args = [] then e.formula
  else
    let list := ", ".intercalate (e.args.map fun n => (Binary64.ofInt n).write .detailed)
    s!"{e.formula} [{list}]"

/-- The line of an example. -/
def Example.line (e : Example) : String :=
  match evaluate {} e.formula (e.args.map Binary64.ofInt) with
  | .ok x => s!"  {e.label} = {x.text}\n"
  | .error err => s!"  {e.label} -> {err.kind.name}: {err.message}\n"

/-- A topic with the lines of its examples. -/
def topicText (topic : String × List Example) : String :=
  s!"\n{topic.1}:\n" ++ String.join (topic.2.map Example.line)

/-- The text of the tour. -/
def tourText : String :=
  "=== Formula Calculator Examples ===\n" ++ String.join (tourTopics.map topicText) ++
    "\n=== Examples completed ===\n"

end Reckoner
