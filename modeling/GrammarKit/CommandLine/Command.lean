import GrammarKit.Calculator.Evaluation
import GrammarKit.CommandLine.Arguments
import GrammarKit.Query.Projection
import GrammarKit.Text.JsonString

/-!
# Commands

The three commands of the command line: `lex` shows the tokens of a text, `calc`
calculates an expression, and `sqlish` shows the parameters of a query.

## Main Definitions

* `Command`, `readCommand` — a command with its arguments, and the command of an
  argument list
* `Report` — exit code and output of a command that has ended
* `Command.run` — runs a command
* `run` — reads a command and runs it
-/

namespace GrammarKit.CommandLine

/-- A command with its arguments. -/
inductive Command where
  | lex (text : String) (standalone debug : Bool)
  | calculate (expression : List String) (debug : Bool)
  | query (text : String) (debug : Bool)
deriving DecidableEq, Repr

/-- The options that stand before a command. -/
def mainOptions : Options := [("-h", .help), ("--help", .help)]

/-- The options of a command that can write a trace. -/
def debugOptions : Options := mainOptions ++ [("-D", .debug), ("--debug", .debug)]

/-- The options of the command that shows tokens. -/
def lexOptions : Options := debugOptions ++ [("--standalone", .standalone)]

/-- Reads the arguments after a command's name. -/
def readArguments (name : String) (arguments : List String) : Except Refusal (Command × Bool) := do
  match name with
  | "lex" =>
    let r ← lexOptions.read .one arguments
    return (.lex (r.values.headD "") (.standalone ∈ r.flags) (.debug ∈ r.flags), r.surplus)
  | "calc" =>
    let r ← debugOptions.read .oneOrMore arguments
    return (.calculate r.values (.debug ∈ r.flags), r.surplus)
  | "sqlish" =>
    let r ← debugOptions.read .one arguments
    return (.query (r.values.headD "") (.debug ∈ r.flags), r.surplus)
  | _ => .error .misuse

/-- Finds the command's name among classified arguments.  All that follows the name
belongs to the command; an unknown option before it has no place. -/
def findCommand (surplus : Bool) : List (String × Mark) → Except Refusal Command
  | [] => .error .misuse
  | (name, .value) :: rest => do
    let (command, extra) ← readArguments name (rest.map Prod.fst)
    if surplus || extra then .error .misuse else return command
  | (_, .unknown) :: rest => findCommand true rest
  | (_, .option use) :: rest => do
    let flags ← mainOptions.flagsOf use
    if .help ∈ flags then .error .help else findCommand surplus rest
  | (_, .dashes) :: _ | (_, .ambiguous) :: _ => .error .misuse

/-- The command of an argument list. -/
def readCommand (arguments : List String) : Except Refusal Command :=
  findCommand false (mainOptions.classifyAll arguments)

/-- Exit code and output of a command that has ended. -/
structure Report where
  code : Nat
  output : String := ""
  errors : String := ""
deriving DecidableEq, Repr

/-- What becomes of an argument list. -/
inductive Outcome where
  /-- There is no command; only the exit code is told. -/
  | refused (code : Nat)
  | finished (report : Report)
  /-- A command ended with an error that it does not handle. -/
  | escaped (label message : String)
deriving DecidableEq, Repr

/-- Each line with a line feed after it. -/
def lines (texts : List String) : String :=
  String.join (texts.map (· ++ "\n"))

/-- A text with blanks after it, up to a width. -/
def padRight (width : Nat) (s : String) : String :=
  s ++ String.ofList (List.replicate (width - s.length) ' ')

/-- A number with zeros before it, up to three digits. -/
def threeDigits (n : Nat) : String :=
  let digits := toString n
  String.ofList (List.replicate (3 - digits.length) '0') ++ digits

/-- A token as a line of output. -/
def tokenLine (index : Nat) (t : Token) : String :=
  let number := threeDigits index
  let type := padRight 12 t.type
  let text := Text.quoted t.text
  s!"{number}: {type} {text}  @{t.line}:{t.column}"

/-- The lines of tokens, numbered from a given index on. -/
def tokenLines (index : Nat) : List Token → List String
  | [] => []
  | t :: rest => tokenLine index t :: tokenLines (index + 1) rest

/-- Shows the tokens of a text. -/
def runLex (text : String) (standalone debug : Bool) : Outcome :=
  let profile := if standalone then Profile.standalone else Profile.canonical
  let run : Traced Empty (List Token) := profile.tokenize debug text
  match run.outcome with
  | .ok tokens => .finished ⟨0, lines (tokenLines 0 tokens), lines run.trace⟩
  | .error e => nomatch e

/-- The name of the family a fault belongs to. -/
def faultLabel : Parser.Fault → String
  | .undeclared _ => "GrammarError"
  | .tooDeep _ _ => "ParseDepthError"

/-- The name of the family an error of word building belongs to. -/
def wordsLabel : WordBuilder.Error → String
  | .fault f => faultLabel f
  | .failed _ => "WordBuildError"
  | .unsettled _ => "FixedPointError"

/-- Whether a command reports an error of word building itself. -/
def isReported : WordBuilder.Error → Bool
  | .unsettled _ => false
  | _ => true

/-- Parses a source and goes on with its term.  A term with a failure is reported, and
so is a parse without an answer; with a trace, the outline of the term follows it. -/
def withTerm {ε α : Type} (language : Language ε α) (debug : Bool) (source : String)
    (next : Language ε α → Term → (trace : List String) → Outcome) : Outcome :=
  let language := if debug then language.debugged else language
  let run := language.parse source
  match run.outcome with
  | .error e =>
    if isReported e then
      .finished ⟨2, "", lines (run.trace ++ ["[ERROR] " ++ wordsLabel e ++ " " ++ e.message])⟩
    else .escaped (wordsLabel e) e.message
  | .ok term =>
    if term.ok then
      next language term (run.trace ++ if debug then ["\n[TERM]\n" ++ term.pretty] else [])
    else
      .finished ⟨2, "", lines (run.trace ++ ["[SYNTAX ERROR]", term.report (some source)])⟩

mutual

/-- A value inside a list as it is shown. -/
def innerText : Calculator.Value → String
  | .number n => n.render
  | .text s => Text.quoted s
  | .list _ items => "[" ++ ", ".intercalate (innerTexts items) ++ "]"

/-- Each value inside a list as it is shown. -/
def innerTexts : List Calculator.Value → List String
  | [] => []
  | v :: rest => innerText v :: innerTexts rest

end

/-- A value of the calculator as it is shown; a text on its own stands without
quotes. -/
def valueText : Calculator.Value → String
  | .text s => s
  | v => innerText v

/-- Calculates an expression. -/
def runCalculate (expression : List String) (debug : Bool) : Outcome :=
  withTerm Calculator.language debug (" ".intercalate expression) fun language term trace =>
    match language.evaluate term with
    | .ok value => .finished ⟨0, lines [valueText value], lines trace⟩
    | .error e =>
      let label := e.label Calculator.Error.label
      let message := e.message Calculator.Error.message
      .finished ⟨2, "", lines (trace ++ ["[EVAL ERROR] " ++ label ++ " " ++ message])⟩

/-- A query parameter as JSON. -/
def paramJson : Query.Param → String
  | .text s => Text.jsonString s
  | .count n => toString n

/-- Query parameters as a JSON object, one a line. -/
def paramsJson (params : List (String × Query.Param)) : String :=
  if params.isEmpty then "\x7b\x7d"
  else
    let fields := params.map fun (name, param) =>
      "    " ++ Text.jsonString name ++ ": " ++ paramJson param
    "\x7b\n" ++ ",\n".intercalate fields ++ "\n\x7d"

/-- Shows the parameters of a query. -/
def runQuery (text : String) (debug : Bool) : Outcome :=
  withTerm Query.language debug text fun language term trace =>
    match language.evaluate term with
    | .ok query => .finished ⟨0, lines [paramsJson query.params], lines trace⟩
    | .error (.evaluator e) =>
      .finished ⟨2, "", lines (trace ++ ["[EVAL ERROR] " ++ e.message])⟩
    | .error e =>
      .escaped (e.label fun _ => "") (e.message Query.Error.message)

/-- Runs a command. -/
def Command.run : Command → Outcome
  | .lex text standalone debug => runLex text standalone debug
  | .calculate expression debug => runCalculate expression debug
  | .query text debug => runQuery text debug

/-- Reads a command and runs it. -/
def run (arguments : List String) : Outcome :=
  match readCommand arguments with
  | .ok command => command.run
  | .error .help => .refused 0
  | .error .misuse => .refused 2

end GrammarKit.CommandLine
