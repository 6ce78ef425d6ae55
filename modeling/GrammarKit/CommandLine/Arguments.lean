import GrammarKit.Text.DecimalDigit

/-!
# Command line arguments

How the arguments of a command are told apart.  Options may stand before or after the
positional arguments, which form one unbroken run.  Long options may be abbreviated,
short ones may share a dash, with or without an equals sign after the first, and after a
double dash everything is positional.

## Main Definitions

* `Options` — the options of a command, each name with its flag
* `Options.classify` — what a single argument is
* `Options.read` — the flags and positional arguments of a command

## Design Notes

Reading is a fold over classified arguments.  Its state says how far the run of
positional arguments has come; a request for help ends it at once, and so does an option
that is misused.  An argument that has no place is remembered and makes the whole
reading a misuse, unless help is asked for after it.
-/

namespace GrammarKit.CommandLine

/-- What an option asks for. -/
inductive Flag where
  | help
  | debug
  | standalone
deriving DecidableEq, Repr

/-- The options of a command, each name with its flag. -/
abbrev Options := List (String × Flag)

/-- How many positional arguments a command takes. -/
inductive Arity where
  | one
  | oneOrMore
deriving DecidableEq, Repr

/-- Why there is no command to run. -/
inductive Refusal where
  /-- Help was asked for. -/
  | help
  /-- The arguments are not those of a command. -/
  | misuse
deriving DecidableEq, Repr

/-- An option as it is used: its flag, whether its name is short, and the text attached
to it. -/
structure OptionUse where
  flag : Flag
  short : Bool
  /-- The text that is attached to the name, without the equals sign that may stand
  between. -/
  attached : Option String := none
deriving DecidableEq, Repr

/-- What an argument is. -/
inductive Mark where
  | value
  /-- The double dash that ends the options. -/
  | dashes
  | option (use : OptionUse)
  /-- An option that the command does not have. -/
  | unknown
  /-- The abbreviation of several options. -/
  | ambiguous
deriving DecidableEq, Repr

/-- One or more digits of any script. -/
def isDigits (cs : List Char) : Bool :=
  !cs.isEmpty && cs.all fun c => (Text.digitValue? c).isSome

/-- Whether the characters after a dash make up a negative number: digits, or digits
after a point that may have digits before it.  A line feed at the end does not count. -/
def isNumberTail (cs : List Char) : Bool :=
  let body := if cs.getLast? = some '\n' then cs.dropLast else cs
  let isPoint (c : Char) : Bool := c == '.'
  let whole := body.takeWhile (!isPoint ·)
  let fraction := (body.dropWhile (!isPoint ·)).drop 1
  if body.contains '.' then (whole.isEmpty || isDigits whole) && isDigits fraction
  else isDigits body

/-- The characters before the first equals sign, and those after it if there is one. -/
def splitEquals (cs : List Char) : List Char × Option (List Char) :=
  let isEquals (c : Char) : Bool := c == '='
  (cs.takeWhile (!isEquals ·),
    match cs.dropWhile (!isEquals ·) with
    | [] => none
    | _ :: rest => some rest)

/-- Whether an option name is a short one: a single dash and a letter. -/
def isShortName (name : List Char) : Bool :=
  match name with
  | '-' :: '-' :: _ => false
  | _ => true

namespace Options

/-- The use of the option of a given name. -/
def use? (options : Options) (name : List Char) (attached : Option (List Char)) :
    Option OptionUse :=
  (options.lookup (String.ofList name)).map fun flag =>
    ⟨flag, isShortName name, attached.map String.ofList⟩

/-- The long options that an abbreviation stands for. -/
def abbreviated (options : Options) (name : List Char) : List Flag :=
  (options.filter fun (long, _) => name.isPrefixOf long.toList).map Prod.snd

/-- An argument that begins with two dashes and is not an option's full name. -/
def classifyLong (options : Options) (cs : List Char) : Option Mark :=
  let (name, attached) := splitEquals cs
  match options.abbreviated name with
  | [] => none
  | [flag] => some (.option ⟨flag, false, attached.map String.ofList⟩)
  | _ => some .ambiguous

/-- An argument that begins with a single dash and is not an option's full name: a short
option with text attached. -/
def classifyShort (options : Options) (cs : List Char) : Option Mark :=
  (options.use? (cs.take 2) (some (cs.drop 2))).map .option

/-- An argument that may be an option. -/
def classifyDashed (options : Options) (cs : List Char) : Mark :=
  let (name, attached) := splitEquals cs
  match options.use? cs none, attached.bind fun _ => options.use? name attached with
  | some use, _ => .option use
  | none, some use => .option use
  | none, none =>
    let known := if isShortName cs then options.classifyShort cs else options.classifyLong cs
    match known with
    | some mark => mark
    | none => if isNumberTail (cs.drop 1) || cs.contains ' ' then .value else .unknown

/-- What an argument is, if no double dash stands before it.  An argument is positional
if it is empty, does not begin with a dash, is just a dash, is a negative number or
contains a blank. -/
def classify (options : Options) (argument : String) : Mark :=
  match argument.toList with
  | ['-', '-'] => .dashes
  | '-' :: second :: rest => options.classifyDashed ('-' :: second :: rest)
  | _ => .value

/-- All arguments with what they are; after a double dash each is positional. -/
def classifyAll (options : Options) : List String → List (String × Mark)
  | [] => []
  | argument :: rest =>
    let mark := options.classify argument
    (argument, mark) ::
      if mark = .dashes then rest.map fun a => (a, .value) else classifyAll options rest

/-- The flag of the short option with the given letter. -/
def short? (options : Options) (letter : Char) : Option Flag :=
  options.lookup (String.ofList ['-', letter])

/-- The flags of an option as it is used.  Text that is attached to a short option
stands for more short options, a letter for each; anywhere else it makes a misuse, and
so does an unknown letter or no letter at all. -/
def flagsOf (options : Options) (use : OptionUse) : Except Refusal (List Flag) :=
  match use.attached with
  | none => .ok [use.flag]
  | some text =>
    match text.toList.mapM options.short? with
    | some (next :: more) => if use.short then .ok (use.flag :: next :: more) else .error .misuse
    | _ => .error .misuse

end Options

/-- How far the run of positional arguments has come. -/
inductive Run where
  | waiting
  /-- The run has these arguments, the last one first, and may go on. -/
  | going (values : List String)
  /-- The run is over. -/
  | closed (values : List String)
deriving DecidableEq, Repr

/-- Ends a run that is open. -/
def Run.close : Run → Run
  | .going values => .closed values
  | run => run

/-- A run after a positional argument; `none` if the argument has no place. -/
def Run.take (arity : Arity) (value : String) : Run → Option Run
  | .waiting => some (.going [value])
  | .going values => if arity = .oneOrMore then some (.going (value :: values)) else none
  | .closed _ => none

/-- A run after the double dash; `none` if it has no place. -/
def Run.passDashes (arity : Arity) : Run → Option Run
  | .waiting => some .waiting
  | .going values => some (if arity = .oneOrMore then .going values else .closed values)
  | .closed _ => none

/-- What has been read so far. -/
structure Progress where
  run : Run := .waiting
  flags : List Flag := []
  /-- Whether some argument had no place. -/
  surplus : Bool := false
deriving DecidableEq, Repr

/-- Goes on with a run, or remembers that an argument had no place. -/
def Progress.moveTo (progress : Progress) : Option Run → Progress
  | some run => { progress with run := run }
  | none => { progress with run := progress.run.close, surplus := true }

/-- One classified argument. -/
def Options.advance (options : Options) (arity : Arity) (progress : Progress)
    (argument : String × Mark) : Except Refusal Progress :=
  match argument with
  | (value, .value) => .ok (progress.moveTo (progress.run.take arity value))
  | (_, .dashes) => .ok (progress.moveTo (progress.run.passDashes arity))
  | (_, .unknown) => .ok { progress with run := progress.run.close, surplus := true }
  | (_, .ambiguous) => .error .misuse
  | (_, .option use) => do
    let flags ← options.flagsOf use
    if .help ∈ flags then .error .help
    else .ok { progress with run := progress.run.close, flags := progress.flags ++ flags }

/-- The flags and positional arguments of a command. -/
structure Reading where
  flags : List Flag
  values : List String
  surplus : Bool
deriving DecidableEq, Repr

/-- The positional arguments of a run that has begun. -/
def Run.values? : Run → Option (List String)
  | .waiting => none
  | .going values | .closed values => some values.reverse

/-- Reads the arguments of a command.  An ambiguous abbreviation is found before
anything else. -/
def Options.read (options : Options) (arity : Arity) (arguments : List String) :
    Except Refusal Reading := do
  let marked := options.classifyAll arguments
  if marked.any fun (_, mark) => mark = .ambiguous then .error .misuse
  else
    let progress ← marked.foldlM (options.advance arity) {}
    match progress.run.values? with
    | none => .error .misuse
    | some values => .ok ⟨progress.flags, values, progress.surplus⟩

end GrammarKit.CommandLine
