import Mathlib
import Reckoner.CommandLine.Run
import Reckoner.Proofs.Evaluation.Finite
import Reckoner.Proofs.Json.Written
import Reckoner.Proofs.Messages

/-!
# Plain Reports and Reports in JSON

A formula has one value or one error, and both reports tell the same one. The plain report prints
the value, or the error behind the task that failed; the report in JSON is a line with the formula
and either of the two. A value is finite, so that JSON has a number for it, and both texts read back
as the value, zeros with their signs. A message is one line, so that nothing sets it in further
where it stands as a cause. The flag for JSON changes nothing else that the arguments ask for.

Main results:

* `Command.ofArguments?_json`: with the flag, the same formula, numbers and limits are asked for;
* `indented_eq`: a cause of one line is set in by four spaces;
* `writable_evaluationJson`: an evaluation can be written in JSON;
* `reports_agree`: both reports on a formula tell the same.
-/

namespace Reckoner

/-! ### The flag for JSON -/

namespace Command.EvalState

variable {s : EvalState} {formula : String} {args : List Binary64} {limits : Limits}

/-- The state in which a report in JSON has been asked for as well. -/
def withJson (s : EvalState) : EvalState :=
  { s with json := true }

@[simp] theorem formula_withJson (s : EvalState) : s.withJson.formula = s.formula := rfl

/-- A formula or a number is taken with the flag as without it. -/
theorem positional?_withJson (s : EvalState) (word : String) :
    s.withJson.positional? word = (s.positional? word).map withJson := by
  cases hformula : s.formula with
  | none => simp [positional?, hformula, withJson]
  | some _ => simp [positional?, hformula, withJson, Function.comp_def]

/-- A limit is set with the flag as without it. -/
theorem setLimit?_withJson (s : EvalState) (name value : List Char) :
    s.withJson.setLimit? name value = (s.setLimit? name value).map withJson := by
  unfold setLimit?
  split_ifs <;> simp_all [withJson, Function.comp_def]

/-- Words behind the separator are taken with the flag as without it. -/
theorem foldlM_positional?_withJson (s : EvalState) (words : List String) :
    words.foldlM positional? s.withJson = (words.foldlM positional? s).map withJson := by
  induction words generalizing s with
  | nil => rfl
  | cons word words ih =>
    rw [List.foldlM_cons, List.foldlM_cons, positional?_withJson]
    cases s.positional? word with
    | none => rfl
    | some s' => exact ih s'

/-- The command that the words make up is the same, but for the report. -/
theorem command?_withJson (h : s.command? = some (.eval formula args false limits)) :
    s.withJson.command? = some (.eval formula args true limits) := by
  obtain ⟨f, hf, hcommand⟩ := Option.map_eq_some_iff.1 h
  injection hcommand with hformula hargs _ hlimits
  simp [command?, withJson, hf, hformula, hargs, hlimits]

/-- Where what follows a state is read alike with the flag, so is what follows a state that may
fail. -/
theorem bind_withJson {read : EvalState → Option Command} {state : Option EvalState}
    {c c' : Command} (hread : ∀ s, read s = some c → read s.withJson = some c')
    (h : state.bind read = some c) :
    (state.map withJson).bind read = some c' := by
  obtain ⟨s, rfl, hs⟩ := Option.bind_eq_some_iff.1 h
  exact hread s hs

/-- **The flag changes nothing else.** Words that ask for a plain report ask for the same report in
JSON once the flag has been read. -/
theorem read?_withJson {words : List String}
    (h : s.read? words = some (.eval formula args false limits)) :
    s.withJson.read? words = some (.eval formula args true limits) := by
  -- On the run of the reader: what a word says does not depend on the flag.
  fun_induction read? s words with
  | case1 s => exact command?_withJson h
  | case2 s word words hsense =>
    simp only [read?, formula_withJson, hsense, foldlM_positional?_withJson]
    exact bind_withJson (fun _ => command?_withJson) h
  | case3 s word words hsense ih =>
    simp only [read?, formula_withJson, hsense, positional?_withJson]
    exact bind_withJson ih h
  | case4 s word words hsense ih =>
    simp only [read?, formula_withJson, hsense]
    exact ih h
  | case8 s word name hname value words hsense ih =>
    simp only [read?, formula_withJson, hsense, if_pos hname, setLimit?_withJson]
    exact bind_withJson ih h
  | case9 s word name hname value words hsense ih =>
    simp only [read?, formula_withJson, hsense, if_pos hname, setLimit?_withJson]
    exact bind_withJson ih h
  | case12 s word words value hvalue hsense hname ih =>
    -- The flag itself among the words would ask for a report in JSON.
    obtain ⟨s', hset, hread⟩ := Option.bind_eq_some_iff.1 h
    have hjson : s'.withJson = s' := by
      unfold setJson? at hset
      split_ifs at hset
      cases hset
      rfl
    have hread' := ih s' hread
    rw [hjson, hread] at hread'
    cases hread'
  | case13 s word words name value hsense hlimit hname hformula ih =>
    simp only [read?, formula_withJson, hsense, if_neg hlimit, if_neg hname, if_pos hformula,
      positional?_withJson]
    exact bind_withJson ih h
  | _ => cases h

end Command.EvalState

/-- **With the flag for JSON**, a report on the same formula is asked for, with the same numbers and
limits. -/
theorem Command.ofArguments?_json {words : List String} {formula : String} {args : List Binary64}
    {limits : Limits}
    (h : ofArguments? ("eval" :: words) = some (.eval formula args false limits)) :
    ofArguments? ("eval" :: "--json" :: words) = some (.eval formula args true limits) := by
  have hread : ∀ words, ofArguments? ("eval" :: words) = EvalState.read? {} words := fun _ => rfl
  have hsense : (Word.ofText "--json").sense true false = .option "json".toList none := rfl
  have hflag :
      EvalState.read? {} ("--json" :: words) = EvalState.read? (EvalState.withJson {}) words := by
    simp only [EvalState.read?, Option.isNone_none, Option.isSome_none, hsense]
    rfl
  rw [hread] at h ⊢
  rw [hflag]
  exact EvalState.read?_withJson h

/-! ### The reports -/

/-- A text on one line is set in as a whole. -/
theorem indented_eq {text : String} (h : '\n' ∉ text.toList) : indented text = "    " ++ text := by
  have hsame : ∀ c ∈ text.toList, (if c = '\n' then "\n    ".toList else [c]) = [c] := fun c hc =>
    if_neg (ne_of_mem_of_not_mem hc h)
  rw [indented, List.flatMap_congr hsame, List.flatMap_singleton', String.ofList_append,
    String.ofList_toList, String.ofList_toList]

/-- A failure names the formula, and has the message on a line of its own. -/
theorem stderr_reportPlain (formula : String) {err : FormulaError} (h : '\n' ∉ err.message.toList) :
    (reportPlain formula (.error err)).stderr =
      "Error: Failed to evaluate '" ++ formula ++ "'\n\nCaused by:\n    " ++ err.message ++
        "\n" := by
  have htask : "Error: Failed to evaluate '" = "Error: Failed to " ++ "evaluate '" := rfl
  have hcause : "'\n\nCaused by:\n    " = "'" ++ "\n\nCaused by:\n" ++ "    " := rfl
  dsimp only [reportPlain, Outcome.failure, toString]
  rw [indented_eq h, htask, hcause]
  simp only [String.append_assoc]

/-- An error can be written in JSON: it is made of texts. -/
theorem FormulaError.writable_toJson (err : FormulaError) : err.toJson.Writable :=
  .obj (List.forall_mem_cons.2 ⟨.str _, List.forall_mem_singleton.2 (.str _)⟩)

/-- An evaluation can be written in JSON: there is a number for each value. -/
theorem writable_evaluationJson (limits : Limits) (formula : String) (args : List Binary64) :
    (evaluationJson formula (evaluate limits formula args)).Writable := by
  cases h : evaluate limits formula args with
  | ok x =>
    have hx : x.isFinite := isFinite_of_evaluate h
    exact .obj (List.forall_mem_cons.2 ⟨.str _, List.forall_mem_singleton.2 (.float hx)⟩)
  | error err =>
    exact .obj (List.forall_mem_cons.2 ⟨.str _, List.forall_mem_singleton.2 err.writable_toJson⟩)

/-- What is written in JSON is one line. -/
theorem Json.Writable.newline_notMem_render {v : Json} (h : v.Writable) : '\n' ∉ v.render.toList :=
  fun hmem => absurd (h.toNat_of_mem_render _ hmem) (by decide)

/-- **Both reports on a formula tell the same.** The flag in front of the same words asks for the
report in JSON, and the exit status is the same with it: zero if the formula has a value, one if it
has an error. A value is finite, and the plain text and the number in JSON both read back as this
value. The message of an error is the cause in the error output and the message in JSON, next to the
kind of the error. The error output is that without the log which the program keeps if `-v` or
`--verbose` is among the words. -/
theorem reports_agree (limits : Limits) (formula : String) (args : List Binary64) :
    let plain := (Command.eval formula args false limits).run
    let json := (Command.eval formula args true limits).run
    (∀ words, Command.ofArguments? ("eval" :: words) = some (.eval formula args false limits) →
      runArguments ("eval" :: words) = plain ∧ runArguments ("eval" :: "--json" :: words) = json) ∧
    json.exit = plain.exit ∧ json.stderr = "" ∧
    ((plain.exit = 0 ∧ ∃ x shown line, evaluate limits formula args = .ok x ∧ x.isFinite ∧
        plain.stdout = shown ++ "\n" ∧ plain.stderr = "" ∧ Binary64.parse? shown = some x ∧
        json.stdout = line ++ "\n" ∧ '\n' ∉ line.toList ∧
        Json.read? line = some (.obj [("formula", .str formula), ("result", .float x)])) ∨
      (plain.exit = 1 ∧ ∃ err line, evaluate limits formula args = .error err ∧
        plain.stdout = "" ∧
        plain.stderr = "Error: Failed to evaluate '" ++ formula ++ "'\n\nCaused by:\n    " ++
          err.message ++ "\n" ∧ '\n' ∉ err.message.toList ∧
        json.stdout = line ++ "\n" ∧ '\n' ∉ line.toList ∧
        Json.read? line = some (.obj [("formula", .str formula),
          ("error", .obj [("kind", .str err.kind.name), ("message", .str err.message)])]))) := by
  have hwritable := writable_evaluationJson limits formula args
  have hread := Json.read?_render hwritable
  have hline := hwritable.newline_notMem_render
  intro plain json
  refine ⟨fun words hwords => ⟨?_, ?_⟩, ?_⟩
  · rw [runArguments, hwords]
  · rw [runArguments, Command.ofArguments?_json hwords]
  -- Both runs report on the same evaluation.
  have hplain : plain = reportPlain formula (evaluate limits formula args) := rfl
  have hjson : json = reportJson formula (evaluate limits formula args) := rfl
  clear_value plain json
  subst hplain hjson
  cases h : evaluate limits formula args with
  | ok x =>
    rw [h] at hread hline
    exact ⟨rfl, rfl, .inl ⟨rfl, x, x.text, _, rfl, isFinite_of_evaluate h, rfl, rfl,
      Binary64.parse?_write Layout.readable_plain x, rfl, hline, hread⟩⟩
  | error err =>
    have hmessage := newline_notMem_message_of_evaluate h
    have hstderr := stderr_reportPlain formula hmessage
    rw [h] at hread hline
    exact ⟨rfl, rfl, .inr ⟨rfl, err, _, rfl, rfl, hstderr, hmessage, rfl, hline, hread⟩⟩

/-- A zero keeps its sign in both reports, and both quote the character that is out of place. -/
theorem reports_agree_zero_quote :
    (∃ line, (runArguments ["eval", "-$x", "0"]).stdout = "-0\n" ∧
      (runArguments ["eval", "--json", "-$x", "0"]).stdout = line ++ "\n" ∧
      Json.read? line = some (.obj [("formula", .str "-$x"), ("result", .float (.zero true))])) ∧
    ∃ line, (runArguments ["eval", "1\n+ \"2"]).stderr =
        "Error: Failed to evaluate '" ++ "1\n+ \"2" ++
        "'\n\nCaused by:\n    " ++ "Unexpected character '\"' at offset 4" ++ "\n" ∧
      (runArguments ["eval", "--json", "1\n+ \"2"]).stdout = line ++ "\n" ∧
      Json.read? line = some (.obj [("formula", .str "1\n+ \"2"),
        ("error", .obj [("kind", .str "LexError"),
          ("message", .str "Unexpected character '\"' at offset 4")])]) := by
  constructor
  · have hvalue : evaluate {} "-$x" [.zero false] = .ok (.zero true) := by decide +kernel
    have hzero : (Command.eval "-$x" [.zero false] false {}).run.stdout = "-0\n" := by
      decide +kernel
    obtain ⟨hwords, -, -, hreports⟩ := reports_agree {} "-$x" [.zero false]
    obtain ⟨hplain, hjson⟩ := hwords ["-$x", "0"] rfl
    rw [hplain, hjson]
    rcases hreports with ⟨-, x, _, line, hx, -, -, -, -, hline, -, hread⟩ | ⟨-, err, _, herr, -⟩
    · rw [hvalue] at hx
      cases hx
      exact ⟨line, hzero, hline, hread⟩
    · rw [hvalue] at herr
      cases herr
  · have hfails : evaluate {} "1\n+ \"2" [] = .error (.unexpectedChar '"' 4) := by decide +kernel
    have hmessage : (FormulaError.unexpectedChar '"' 4).message =
        "Unexpected character '\"' at offset 4" := by decide +kernel
    obtain ⟨hwords, -, -, hreports⟩ := reports_agree {} "1\n+ \"2" []
    obtain ⟨hplain, hjson⟩ := hwords ["1\n+ \"2"] rfl
    rw [hplain, hjson]
    rcases hreports with ⟨-, _, _, _, hx, -⟩ | ⟨-, err, line, herr, -, hstderr, -, hline, -, hread⟩
    · rw [hfails] at hx
      cases hx
    · rw [hfails] at herr
      cases herr
      rw [hmessage] at hstderr hread
      exact ⟨line, hstderr, hline, hread⟩

end Reckoner
