import GrammarKit.Proofs.Conformance
import GrammarKit.Proofs.DebugOption
import GrammarKit.Proofs.QueryRoundTrip
import GrammarKit.Proofs.Tracing

/-!
# Commands end in a report

Whatever its arguments are, a command that is read ends in a report: with exit code
zero, or with exit code two, nothing on the output and something on the error
stream.  The debug option changes what is on the error stream and nothing else.

## Main Definitions

* `Report.Proper` — what every report of a command satisfies
* `Outcome.shown` — what becomes of an argument list, less the error stream

## Main Statements

* `Command.exists_report` — every command ends in a proper report
* `run_finishes` — so does every argument list that is a command
* `Command.shown_debugged` — a command shows the same with a trace
* `trace_neutral` — a trace changes no outcome, from the lexer to the commands

## Design Notes

Two errors would escape a command: words that do not settle, and an evaluation that
fails otherwise than in an evaluator.  The words of a query always settle or leave a
failed term (`Query.tokenize_cases`), and the term of a query has the root's evaluator
(`Query.evaluate_root`).
-/

namespace GrammarKit

/-! ### Errors of parses and of evaluation -/

/-- Tokens are parsed without an error but a fault. -/
theorem Language.fault_of_parseTokens {ε α : Type} {l : Language ε α} {tokens : List Token}
    {e : WordBuilder.Error} (h : (l.parseTokens tokens).outcome = .error e) :
    ∃ f, e = .fault f := by
  rw [Language.parseTokens, Traced.outcome_mapError] at h
  cases parsed : (l.parser.parse tokens).outcome with
  | ok term =>
      rw [parsed] at h
      cases h
  | error f =>
      rw [parsed] at h
      cases h
      exact ⟨f, rfl⟩

/-- The calculator has no word builder. -/
theorem Calculator.maxDepth_words : ∀ b ∈ language.words, b.maxDepth = 256 := nofun

/-- An expression is parsed without an error but a fault. -/
theorem Calculator.fault_of_parse {source : String} {e : WordBuilder.Error}
    (h : (language.parse source).outcome = .error e) : ∃ f, e = .fault f := by
  rw [Language.outcome_parse rfl] at h
  exact Language.fault_of_parseTokens h

namespace Query

/-- The word builder of queries has the default limit on nesting. -/
theorem maxDepth_words : ∀ b ∈ language.words, b.maxDepth = 256 := by
  rintro b ⟨⟩
  rfl

/-- A query is parsed without an error but a fault: its words settle, or word building
leaves a failed term. -/
theorem fault_of_parse {source : String} {e : WordBuilder.Error}
    (h : (language.parse source).outcome = .error e) : ∃ f, e = .fault f := by
  rw [Language.parse, Traced.outcome_recover] at h
  rcases tokenize_cases source with ⟨tokens, built⟩ | ⟨term, failure, failed, -⟩
  · rw [built] at h
    exact Language.fault_of_parseTokens h
  · rw [failed] at h
    cases h

/-- **The term of a query fails in its evaluator**, if its evaluation fails at all. -/
theorem evaluate_of_parse {source : String} {term : Term}
    (h : (language.parse source).outcome = .ok term) (isOk : term.ok = true) :
    language.evaluate term = (project language.parser.blankTypes term).mapError .evaluator := by
  obtain ⟨tokens, -, parsed⟩ := words_of_parse h isOk
  obtain ⟨body, stop, -, rfl⟩ := Parser.success_of_parse parsed isOk
  exact evaluate_root _

end Query

namespace CommandLine

/-! ### Proper reports -/

/-- **A proper report**: a command succeeds with exit code zero, or fails with exit
code two, without output and with an error message. -/
structure Report.Proper (r : Report) : Prop where
  code : r.code = 0 ∨ r.code = 2
  failed : r.code = 2 → r.output = "" ∧ r.errors ≠ ""

/-- What becomes of an argument list, less what is on the error stream. -/
def Outcome.shown : Outcome → Outcome
  | .refused code => .refused code
  | .finished report => .finished { report with errors := "" }
  | .escaped label message => .escaped label message

/-- Lines are some text. -/
theorem lines_ne_empty {texts : List String} (h : texts ≠ []) : lines texts ≠ "" := by
  intro empty
  cases texts with
  | nil => exact h rfl
  | cons text rest =>
      have chars := congrArg String.toList empty
      simp [lines] at chars

theorem Report.proper_zero (output errors : String) : Report.Proper ⟨0, output, errors⟩ where
  code := Or.inl rfl
  failed := by
    intro two
    cases two

theorem Report.proper_two {texts : List String} (h : texts ≠ []) :
    Report.Proper ⟨2, "", lines texts⟩ where
  code := Or.inr rfl
  failed := fun _ => ⟨rfl, lines_ne_empty h⟩

section WithTerm

variable {ε α : Type} {language : Language ε α} {source : String}
  {next : Language ε α → Term → List String → Outcome}

/-- With a trace or without it, a source is parsed the same way. -/
theorem outcome_parse_debugged (limit : ∀ b ∈ language.words, b.maxDepth = 256) (debug : Bool) :
    ((if debug then language.debugged else language).parse source).outcome =
      (language.parse source).outcome := by
  cases debug with
  | false => rfl
  | true =>
      rw [if_pos rfl, Language.debugged_eq_tracing limit]
      exact language.outcome_parse_tracing true true source

/-- **A source ends in a proper report** if no error but a fault arises and what is
done with an ok term ends in one. -/
theorem withTerm_proper (limit : ∀ b ∈ language.words, b.maxDepth = 256) (debug : Bool)
    (faults : ∀ {e}, (language.parse source).outcome = .error e → ∃ f, e = .fault f)
    (answers : ∀ {term} trace, (language.parse source).outcome = .ok term → term.ok = true →
      ∃ r : Report, r.Proper ∧
        next (if debug then language.debugged else language) term trace = .finished r) :
    ∃ r : Report, r.Proper ∧ withTerm language debug source next = .finished r := by
  unfold withTerm
  simp only
  rw [outcome_parse_debugged limit]
  cases parsed : (language.parse source).outcome with
  | error e =>
      obtain ⟨f, rfl⟩ := faults parsed
      exact ⟨_, Report.proper_two (by simp), rfl⟩
  | ok term =>
      by_cases isOk : term.ok = true
      · simp only [isOk, if_true]
        exact answers _ parsed isOk
      · simp only [isOk]
        exact ⟨_, Report.proper_two (by simp), rfl⟩

/-- **What a source shows does not depend on the trace**, if what is done with its
term does not. -/
theorem shown_withTerm (shows : Term → Outcome)
    (limit : ∀ b ∈ language.words, b.maxDepth = 256)
    (quiet : ∀ (debug : Bool) term trace,
      (next (if debug then language.debugged else language) term trace).shown = shows term)
    (debug debug' : Bool) :
    (withTerm language debug source next).shown = (withTerm language debug' source next).shown := by
  unfold withTerm
  simp only
  rw [outcome_parse_debugged limit, outcome_parse_debugged limit]
  cases (language.parse source).outcome with
  | error e =>
      by_cases reported : isReported e = true
      · simp only [reported, if_true, Outcome.shown]
      · simp only [reported, Bool.false_eq_true, if_false, Outcome.shown]
  | ok term =>
      by_cases isOk : term.ok = true
      · simp only [isOk, if_true]
        rw [quiet debug, quiet debug']
      · simp only [isOk, Bool.false_eq_true, if_false, Outcome.shown]

/-- With a trace or without it, a term has the same value. -/
theorem evaluate_debugged (debug : Bool) (term : Term) :
    (if debug then language.debugged else language).evaluate term = language.evaluate term := by
  cases debug with
  | false => rfl
  | true => rfl

end WithTerm

/-! ### The three commands -/

/-- The lexer has an answer to every text. -/
theorem runLex_eq (text : String) (standalone debug : Bool) :
    ∃ errors, runLex text standalone debug = .finished ⟨0, lines (tokenLines 0
      ((if standalone then Profile.standalone else .canonical).tokens text)), errors⟩ := by
  refine ⟨lines ((if standalone then Profile.standalone else .canonical).tokenize debug text :
    Traced Empty (List Token)).trace, ?_⟩
  unfold runLex
  simp only
  rw [Profile.outcome_tokenize]

theorem runCalculate_proper (expression : List String) (debug : Bool) :
    ∃ r : Report, r.Proper ∧ runCalculate expression debug = .finished r := by
  refine withTerm_proper Calculator.maxDepth_words debug Calculator.fault_of_parse ?_
  intro term trace _ _
  simp only [evaluate_debugged]
  cases Calculator.language.evaluate term with
  | ok value => exact ⟨_, Report.proper_zero _ _, rfl⟩
  | error e => exact ⟨_, Report.proper_two (by simp), rfl⟩

theorem runQuery_proper (text : String) (debug : Bool) :
    ∃ r : Report, r.Proper ∧ runQuery text debug = .finished r := by
  refine withTerm_proper Query.maxDepth_words debug Query.fault_of_parse ?_
  intro term trace parsed isOk
  simp only [evaluate_debugged, Query.evaluate_of_parse parsed isOk]
  cases Query.project Query.language.parser.blankTypes term with
  | ok query => exact ⟨_, Report.proper_zero _ _, rfl⟩
  | error e => exact ⟨_, Report.proper_two (by simp), rfl⟩

/-- **Every command ends in a proper report**, and the lexer's has exit code zero. -/
theorem Command.exists_report (command : Command) :
    ∃ r : Report, r.Proper ∧ command.run = .finished r ∧
      ∀ text standalone debug, command = .lex text standalone debug → r.code = 0 := by
  cases command with
  | lex text standalone debug =>
      obtain ⟨errors, ran⟩ := runLex_eq text standalone debug
      exact ⟨_, Report.proper_zero _ _, ran, fun _ _ _ _ => rfl⟩
  | calculate expression debug =>
      obtain ⟨r, proper, ran⟩ := runCalculate_proper expression debug
      exact ⟨r, proper, ran, nofun⟩
  | query text debug =>
      obtain ⟨r, proper, ran⟩ := runQuery_proper text debug
      exact ⟨r, proper, ran, nofun⟩

/-- **The command line never crashes.**  Every argument list that is a command ends in
a report, no error escapes, and the exit code is zero or two.  The lexer always has
exit code zero.  With exit code two there is no output and some error message. -/
theorem run_finishes {arguments : List String} {command : Command}
    (accepted : readCommand arguments = .ok command) :
    ∃ report, run arguments = .finished report ∧ (report.code = 0 ∨ report.code = 2) ∧
      (∀ text standalone debug, command = .lex text standalone debug → report.code = 0) ∧
      (report.code = 2 → report.output = "" ∧ report.errors ≠ "") := by
  obtain ⟨report, proper, ran, lexed⟩ := command.exists_report
  refine ⟨report, ?_, proper.code, lexed, proper.failed⟩
  rw [run, accepted, ← ran]

/-- A query with an unclosed quote and a debug option: it is a command, and it ends in
a report of its own. -/
theorem run_finishes_open_quote :
    readCommand ["sqlish", "-D", "FROM t WHERE a = 'x"] =
        .ok (.query "FROM t WHERE a = 'x" true) ∧
      ∃ report, run ["sqlish", "-D", "FROM t WHERE a = 'x"] = .finished report ∧
        (report.code = 0 ∨ report.code = 2) ∧
        (report.code = 2 → report.output = "" ∧ report.errors ≠ "") := by
  have accepted : readCommand ["sqlish", "-D", "FROM t WHERE a = 'x"] =
      .ok (.query "FROM t WHERE a = 'x" true) := by
    rfl
  obtain ⟨report, ran, code, -, failed⟩ := run_finishes accepted
  exact ⟨accepted, report, ran, code, failed⟩

/-! ### With and without a trace -/

/-- A calculation shows its value, or nothing. -/
def shownValue (term : Term) : Outcome :=
  match Calculator.language.evaluate term with
  | .ok value => .finished ⟨0, lines [valueText value], ""⟩
  | .error _ => .finished ⟨2, "", ""⟩

/-- A query shows its parameters, or nothing. -/
def shownQuery (term : Term) : Outcome :=
  match Query.language.evaluate term with
  | .ok query => .finished ⟨0, lines [paramsJson query.params], ""⟩
  | .error (.evaluator _) => .finished ⟨2, "", ""⟩
  | .error e => .escaped (e.label fun _ => "") (e.message Query.Error.message)

theorem shown_runLex (text : String) (standalone debug debug' : Bool) :
    (runLex text standalone debug).shown = (runLex text standalone debug').shown := by
  obtain ⟨errors, ran⟩ := runLex_eq text standalone debug
  obtain ⟨errors', ran'⟩ := runLex_eq text standalone debug'
  rw [ran, ran', Outcome.shown, Outcome.shown]

theorem shown_runCalculate (expression : List String) (debug debug' : Bool) :
    (runCalculate expression debug).shown = (runCalculate expression debug').shown := by
  refine shown_withTerm shownValue Calculator.maxDepth_words ?_ debug debug'
  intro debug term trace
  simp only [evaluate_debugged, shownValue]
  cases Calculator.language.evaluate term with
  | ok value => rfl
  | error e => rfl

theorem shown_runQuery (text : String) (debug debug' : Bool) :
    (runQuery text debug).shown = (runQuery text debug').shown := by
  refine shown_withTerm shownQuery Query.maxDepth_words ?_ debug debug'
  intro debug term trace
  simp only [evaluate_debugged, shownQuery]
  cases Query.language.evaluate term with
  | ok query => rfl
  | error e => cases e <;> rfl

/-- **A command shows the same with a trace.** -/
theorem Command.shown_debugged (command : Command) :
    command.debugged.run.shown = command.run.shown := by
  cases command with
  | lex text standalone debug => exact shown_runLex text standalone true debug
  | calculate expression debug => exact shown_runCalculate expression true debug
  | query text debug => exact shown_runQuery text true debug

/-- Arguments that are read as the command with a trace show the same. -/
theorem shown_run_of_debugged {arguments more : List String}
    (reads : readCommand more = (readCommand arguments).map Command.debugged) :
    (run more).shown = (run arguments).shown := by
  rw [run, run, reads]
  cases readCommand arguments with
  | ok command => exact command.shown_debugged
  | error e => cases e <;> rfl

/-- **A trace changes no outcome.**  The lexer, a parse, the parse of one rule, word
building and a language have the same result or the same error with traces on or off.
Every command has the same exit code and the same output with the debug option as
without it, before its arguments or behind them, and refuses the same arguments. -/
theorem trace_neutral :
    (∀ (ε : Type) (profile : Profile) (on off : Bool) (source : String),
      (profile.tokenize on source : Traced ε (List Token)).outcome =
        (profile.tokenize off source : Traced ε (List Token)).outcome) ∧
    (∀ (p : Parser) (on : Bool) (tokens : List Token),
      (Parser.parse { p with debug := on } tokens).outcome = (p.parse tokens).outcome) ∧
    (∀ (p : Parser) (on : Bool) (name : String) (tokens : List Token) (start : Nat),
      (Parser.parseRule { p with debug := on } name tokens start).outcome =
        (p.parseRule name tokens start).outcome) ∧
    (∀ (b : WordBuilder) (on : Bool) (tokens : List Token) (raw : Bool),
      (WordBuilder.build { b with debug := on } tokens raw).outcome =
        (b.build tokens raw).outcome) ∧
    (∀ (ε α : Type) (l : Language ε α) (on words : Bool),
      (∀ source, ((l.tracing on words).parse source).outcome = (l.parse source).outcome) ∧
      ∀ tokens, ((l.tracing on words).parseTokens tokens).outcome =
        (l.parseTokens tokens).outcome) ∧
    ∀ name ∈ ["lex", "calc", "sqlish"], ∀ rest,
      (run (name :: "-D" :: rest)).shown = (run (name :: rest)).shown ∧
      ("--" ∉ rest → (run (name :: (rest ++ ["-D"]))).shown = (run (name :: rest)).shown) := by
  refine ⟨fun ε profile on off source => ?_, Parser.outcome_parse_debug,
    Parser.outcome_parseRule_debug, WordBuilder.outcome_build_debug,
    fun ε α l on words => ⟨l.outcome_parse_tracing on words,
      l.outcome_parseTokens_tracing on words⟩, fun name isCommand rest => ⟨?_, ?_⟩⟩
  · rw [Profile.outcome_tokenize, Profile.outcome_tokenize]
  · exact shown_run_of_debugged (readCommand_debug_first isCommand rest)
  · intro noDashes
    exact shown_run_of_debugged (readCommand_debug_last isCommand noDashes)

/-- A query with the debug option behind it shows what it shows without the option. -/
theorem trace_neutral_query :
    "sqlish" ∈ ["lex", "calc", "sqlish"] ∧ "--" ∉ ["FROM t WHERE a = 1"] ∧
      (run ["sqlish", "FROM t WHERE a = 1", "-D"]).shown =
        (run ["sqlish", "FROM t WHERE a = 1"]).shown := by
  have isCommand : "sqlish" ∈ ["lex", "calc", "sqlish"] := by decide
  have noDashes : "--" ∉ ["FROM t WHERE a = 1"] := by decide
  obtain ⟨-, -, -, -, -, commands⟩ := trace_neutral
  exact ⟨isCommand, noDashes, (commands "sqlish" isCommand ["FROM t WHERE a = 1"]).2 noDashes⟩

end CommandLine

end GrammarKit
