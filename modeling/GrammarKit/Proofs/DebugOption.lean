import GrammarKit.CommandLine.Command

/-!
# The debug option

The option that asks for a trace stands before the positional arguments of a
command or behind them.  Either way the arguments are read as without it, refused
ones included, and all that it changes is the **debug flag** of the command.

## Main Definitions

* `Command.debugged` — the same command with a trace
* `Options.TakesDebug` — the options of a command that has the debug option

## Main Statements

* `readCommand_debug_first` — the option right behind the name of a command
* `readCommand_debug_last` — the option at the end, if no double dash is before it

## Design Notes

Reading is a fold, and nothing it does depends on the flags that it has collected
(`Options.advance_flags`).  So flags that are there from the start are simply there
at the end.
-/

namespace GrammarKit.CommandLine

/-- The same command with a trace. -/
def Command.debugged : Command → Command
  | .lex text standalone _ => .lex text standalone true
  | .calculate expression _ => .calculate expression true
  | .query text _ => .query text true

/-- The options of a command that has the debug option. -/
def Options.TakesDebug (options : Options) : Prop :=
  options.classify "-D" = .option ⟨.debug, true, none⟩

theorem takesDebug_debugOptions : debugOptions.TakesDebug := by
  unfold Options.TakesDebug
  decide

theorem takesDebug_lexOptions : lexOptions.TakesDebug := by
  unfold Options.TakesDebug
  decide

namespace Options

variable {options : Options} {arity : Arity}

/-! ### What arguments are -/

theorem map_fst_classifyAll (options : Options) (arguments : List String) :
    (options.classifyAll arguments).map Prod.fst = arguments := by
  induction arguments with
  | nil => rfl
  | cons argument rest ih =>
      rw [classifyAll, List.map_cons]
      split
      · rw [List.map_map]
        exact congrArg (argument :: ·) (List.map_id rest)
      · rw [ih]

theorem classifyDashed_ne_dashes (options : Options) (cs : List Char) :
    options.classifyDashed cs ≠ .dashes := by
  intro h
  unfold classifyDashed at h
  simp only at h
  split at h
  · cases h
  · cases h
  · split at h
    · rename_i known
      split at known
      · obtain ⟨use, -, rfl⟩ := Option.map_eq_some_iff.mp known
        cases h
      · unfold classifyLong at known
        simp only at known
        split at known
        · cases known
        · cases known
          cases h
        · cases known
          cases h
    · split at h
      · cases h
      · cases h

/-- Only the double dash ends the options. -/
theorem eq_of_classify_dashes {argument : String} (h : options.classify argument = .dashes) :
    argument = "--" := by
  unfold classify at h
  split at h
  · rename_i same
    exact String.toList_inj.mp same
  · exact (classifyDashed_ne_dashes options _ h).elim
  · cases h

/-- Without a double dash an argument does not depend on those before it. -/
theorem classifyAll_append {arguments : List String} (noDashes : "--" ∉ arguments)
    (more : List String) :
    options.classifyAll (arguments ++ more) =
      options.classifyAll arguments ++ options.classifyAll more := by
  induction arguments with
  | nil => rfl
  | cons argument rest ih =>
      rw [List.mem_cons, not_or] at noDashes
      have notDashes : options.classify argument ≠ .dashes :=
        fun h => noDashes.1 (eq_of_classify_dashes h).symm
      rw [List.cons_append, classifyAll, classifyAll, if_neg notDashes, if_neg notDashes,
        ih noDashes.2, List.cons_append]

theorem classifyAll_debug (takes : options.TakesDebug) (rest : List String) :
    options.classifyAll ("-D" :: rest) =
      ("-D", .option ⟨.debug, true, none⟩) :: options.classifyAll rest := by
  rw [classifyAll, takes]
  rfl

/-! ### Flags that are collected -/

end Options

/-- What has been read, with flags in front of those collected. -/
def Progress.addFlags (front : List Flag) (progress : Progress) : Progress :=
  { progress with flags := front ++ progress.flags }

/-- A reading with other flags. -/
def Reading.withFlags (f : List Flag → List Flag) (r : Reading) : Reading :=
  { r with flags := f r.flags }

/-- The reading that has been reached, if there is a positional argument. -/
def Progress.reading (progress : Progress) : Except Refusal Reading :=
  match progress.run.values? with
  | none => .error .misuse
  | some values => .ok ⟨progress.flags, values, progress.surplus⟩

theorem Progress.addFlags_moveTo (front : List Flag) (progress : Progress) (run : Option Run) :
    (progress.addFlags front).moveTo run = (progress.moveTo run).addFlags front := by
  cases run with
  | none => rfl
  | some run => rfl

/-- Closing a run leaves its arguments as they are. -/
theorem Run.values?_close (run : Run) : run.close.values? = run.values? := by
  cases run with
  | waiting => rfl
  | going values => rfl
  | closed values => rfl

namespace Options

variable {options : Options} {arity : Arity}

/-- **One argument is read the same way whatever flags were collected.** -/
theorem advance_flags (front : List Flag) (progress : Progress) (argument : String × Mark) :
    options.advance arity (progress.addFlags front) argument =
      (options.advance arity progress argument).map (Progress.addFlags front) := by
  obtain ⟨value, mark⟩ := argument
  cases mark with
  | value => exact congrArg Except.ok (Progress.addFlags_moveTo front progress _)
  | dashes => exact congrArg Except.ok (Progress.addFlags_moveTo front progress _)
  | unknown => rfl
  | ambiguous => rfl
  | option use =>
      simp only [advance]
      cases options.flagsOf use with
      | error e => rfl
      | ok flags =>
          show (if _ then _ else _) = Except.map _ (if _ then _ else _)
          split
          · rfl
          · simp [Except.map, Progress.addFlags]

/-- So are all arguments. -/
theorem foldlM_advance_flags (front : List Flag) :
    ∀ (arguments : List (String × Mark)) (progress : Progress),
      arguments.foldlM (options.advance arity) (progress.addFlags front) =
        (arguments.foldlM (options.advance arity) progress).map (Progress.addFlags front) := by
  intro arguments
  induction arguments with
  | nil => intro progress; rfl
  | cons argument rest ih =>
      intro progress
      rw [List.foldlM_cons, List.foldlM_cons, advance_flags]
      cases options.advance arity progress argument with
      | error e => rfl
      | ok next => exact ih next

/-- Arguments are read one after the other, unless some abbreviation is ambiguous. -/
theorem read_eq (options : Options) (arity : Arity) (arguments : List String) :
    options.read arity arguments =
      if (options.classifyAll arguments).any fun (_, mark) => mark = .ambiguous then
        .error .misuse
      else
        ((options.classifyAll arguments).foldlM (options.advance arity) {}).bind
          Progress.reading := rfl

/-- **The debug option in front** is one flag more, and all else is read as without it. -/
theorem read_debug_first (takes : options.TakesDebug) (rest : List String) :
    options.read arity ("-D" :: rest) =
      (options.read arity rest).map (Reading.withFlags ([.debug] ++ ·)) := by
  have first : options.advance arity {} ("-D", .option ⟨.debug, true, none⟩) =
      .ok (Progress.addFlags [.debug] {}) := rfl
  have reading : ∀ progress : Progress, (progress.addFlags [.debug]).reading =
      progress.reading.map (Reading.withFlags ([.debug] ++ ·)) := by
    intro progress
    unfold Progress.reading Progress.addFlags
    cases progress.run.values? with
    | none => rfl
    | some values => rfl
  rw [read_eq, read_eq, classifyAll_debug takes, List.any_cons, List.foldlM_cons, first]
  simp only [reduceCtorEq, decide_false, Bool.false_or]
  split
  · rfl
  · show (List.foldlM (options.advance arity) (Progress.addFlags [.debug] {}) _).bind _ = _
    rw [foldlM_advance_flags]
    cases (options.classifyAll rest).foldlM (options.advance arity) {} with
    | error e => rfl
    | ok progress => exact reading progress

/-- **The debug option at the end** likewise, unless a double dash makes it positional. -/
theorem read_debug_last (takes : options.TakesDebug) {arguments : List String}
    (noDashes : "--" ∉ arguments) :
    options.read arity (arguments ++ ["-D"]) =
      (options.read arity arguments).map (Reading.withFlags (· ++ [.debug])) := by
  have reading : ∀ progress : Progress,
      (options.advance arity progress ("-D", .option ⟨.debug, true, none⟩)).bind
          Progress.reading =
        progress.reading.map (Reading.withFlags (· ++ [.debug])) := by
    intro progress
    show Progress.reading { progress with
      run := progress.run.close, flags := progress.flags ++ [.debug] } = _
    unfold Progress.reading
    simp only [Run.values?_close]
    cases progress.run.values? with
    | none => rfl
    | some values => rfl
  rw [read_eq, read_eq, classifyAll_append noDashes, classifyAll_debug takes, List.any_append,
    List.foldlM_append]
  simp only [classifyAll, List.any_cons, List.any_nil, reduceCtorEq, decide_false, Bool.or_false]
  split
  · rfl
  · cases (options.classifyAll arguments).foldlM (options.advance arity) {} with
    | error e => rfl
    | ok progress => exact reading progress

end Options

/-! ### Commands -/

/-- The names of the commands. -/
def commandNames : List String := ["lex", "calc", "sqlish"]

/-- A command's name is positional. -/
theorem classify_of_commandNames : ∀ name ∈ commandNames, mainOptions.classify name = .value := by
  decide

/-- The arguments behind the name of a command are read with its options. -/
theorem readCommand_cons {name : String} (isCommand : name ∈ commandNames) (rest : List String) :
    readCommand (name :: rest) = (readArguments name rest).bind fun (command, extra) =>
      if extra then .error .misuse else .ok command := by
  rw [readCommand, Options.classifyAll, classify_of_commandNames name isCommand]
  show (readArguments name ((mainOptions.classifyAll rest).map Prod.fst)).bind _ = _
  rw [Options.map_fst_classifyAll]
  rfl

/-- Arguments that are read with the debug flag as well give the command with a trace. -/
theorem readArguments_debugged {arguments more : List String} {f : List Flag → List Flag}
    (adds : ∀ flags flag, flag ∈ f flags ↔ flag = .debug ∨ flag ∈ flags)
    (reads : ∀ {options : Options}, options.TakesDebug → ∀ arity,
      options.read arity more = (options.read arity arguments).map (Reading.withFlags f))
    (name : String) :
    readArguments name more =
      (readArguments name arguments).map fun (command, extra) => (command.debugged, extra) := by
  have debug : ∀ flags, decide (Flag.debug ∈ f flags) = true := by simp [adds]
  have standalone : ∀ flags, decide (Flag.standalone ∈ f flags) =
      decide (Flag.standalone ∈ flags) := by simp [adds]
  unfold readArguments
  split
  · rw [reads takesDebug_lexOptions]
    cases lexOptions.read .one arguments with
    | error e => rfl
    | ok r => simp only [Except.map, Reading.withFlags, bind, Except.bind, debug, standalone]; rfl
  · rw [reads takesDebug_debugOptions]
    cases debugOptions.read .oneOrMore arguments with
    | error e => rfl
    | ok r => simp only [Except.map, Reading.withFlags, bind, Except.bind, debug]; rfl
  · rw [reads takesDebug_debugOptions]
    cases debugOptions.read .one arguments with
    | error e => rfl
    | ok r => simp only [Except.map, Reading.withFlags, bind, Except.bind, debug]; rfl
  · rfl

/-- What is read of a command with the debug flag as well. -/
theorem readCommand_debugged {name : String} (isCommand : name ∈ commandNames)
    {arguments more : List String} (reads : readArguments name more =
      (readArguments name arguments).map fun (command, extra) => (command.debugged, extra)) :
    readCommand (name :: more) = (readCommand (name :: arguments)).map Command.debugged := by
  rw [readCommand_cons isCommand, readCommand_cons isCommand, reads]
  cases readArguments name arguments with
  | error e => rfl
  | ok answer =>
      obtain ⟨command, extra⟩ := answer
      cases extra with
      | true => rfl
      | false => rfl

/-- **The debug option right behind a command's name** changes the debug flag alone. -/
theorem readCommand_debug_first {name : String} (isCommand : name ∈ commandNames)
    (rest : List String) :
    readCommand (name :: "-D" :: rest) = (readCommand (name :: rest)).map Command.debugged :=
  readCommand_debugged isCommand <|
    readArguments_debugged (by simp) (fun takes _ => Options.read_debug_first takes rest) name

/-- **So does the debug option at the end**, unless a double dash makes it positional. -/
theorem readCommand_debug_last {name : String} (isCommand : name ∈ commandNames)
    {rest : List String} (noDashes : "--" ∉ rest) :
    readCommand (name :: (rest ++ ["-D"])) = (readCommand (name :: rest)).map Command.debugged :=
  readCommand_debugged isCommand <|
    readArguments_debugged (by simp [or_comm])
      (fun takes _ => Options.read_debug_last takes noDashes) name

end GrammarKit.CommandLine
