import Scim.Command.Options
import Scim.Grammar.Path
import Scim.Limits.Environment
import Scim.Report.Screen
import Scim.Tree.Serial

/-!
# The command line

* `Flag`               the options before the command;
* `Libraries`          what the program leaves to others;
* `Settings`           what the options ask for;
* `Command.report`     the report of a command on an expression;
* `Command.log`        the notes of a command, for the second degree of verbosity;
* `Command.run`        what the program does for its arguments.

The options that ask for help or for the version win over all others.  The values of the others are
checked in the order in which the options are first given, the last value of an option counts, and
only then the command is looked up, the environment read and the arguments of the command split.
-/

namespace Scim

/-- The options before the command. -/
inductive Flag where
  | output
  | json
  | quiet
  | verbose
  | maxLength
  | maxDepth
  | version
  | help
  deriving DecidableEq, Repr

namespace Command

/-- The name of the program. -/
def programName : String := "scim-filter"

/-- The version of the program. -/
def version : String := "0.1.0"

/-- The answer to the question for the version. -/
def versionText : String := programName ++ ", version " ++ version ++ "\n"

/-- The options before the command. -/
def specs : List (Spec Flag) :=
  [⟨.output, ["--output"], [], true⟩, ⟨.json, ["--json"], [], false⟩,
    ⟨.quiet, ["--quiet"], ['q'], false⟩, ⟨.verbose, [], ['v'], false⟩,
    ⟨.maxLength, ["--max-length"], [], true⟩, ⟨.maxDepth, ["--max-depth"], [], true⟩,
    ⟨.version, ["--version"], [], false⟩, ⟨.help, ["--help"], ['h'], false⟩]

/-- The options behind the command. -/
def helpSpecs : List (Spec Flag) := [⟨.help, ["--help"], ['h'], false⟩]

/-- What the program leaves to others. -/
structure Libraries where
  /-- Writes reports. -/
  writer : Writer
  /-- Gives limits from named fields. -/
  limits : List (String × Json) → Except (List FieldError) Limits
  /-- Splits arguments into options and the others, which may or may not stand between options. -/
  split : List (Spec Flag) → Bool → List String →
    Except UsageError (List (Given Flag) × List String)

/-- The libraries of this project. -/
def Libraries.standard : Libraries := ⟨.standard, Limits.ofFields, splitOptions⟩

/-- What the options ask for. -/
structure Settings where
  style : Style
  verbosity : Nat
  maxLength : Option Nat
  maxDepth : Option Nat

/-- What the program does. -/
inductive Outcome where
  /-- It shows how it is used: in general, or one of its commands. -/
  | help (command : Option Mode)
  | version
  | usage (e : UsageError)
  | finished (exitCode : Nat) (screen : Screen)
  /-- It stops at a part that a tree cannot hold. -/
  | stopped (e : Invalid)
  /-- It stops at a report that it cannot draw. -/
  | undrawable (e : Undrawable)

/-- Why the options are not simply taken. -/
inductive Interruption where
  | usage (e : UsageError)
  | help
  | version

/-- The last value given for an option. -/
def lastValue (given : List (Given Flag)) (flag : Flag) : Option String :=
  ((given.reverse.find? fun g => g.option == flag).bind Given.value)

/-- The first option that wins over all others. -/
def eager? (given : List (Given Flag)) : Option Interruption :=
  given.findSome? fun g =>
    match g.option with
    | .help => some .help
    | .version => some .version
    | _ => none

/-- The form of a word. -/
def formOf? (word : String) : Option Form := [Form.tree, .json].find? fun f => f.word == word

/-- The name of an option in messages. -/
def optionName : Flag → String
  | .output => "--output"
  | .json => "--json"
  | .quiet => "--quiet"
  | .verbose => "-v"
  | .maxLength => "--max-length"
  | .maxDepth => "--max-depth"
  | .version => "--version"
  | .help => "--help"

/-- The limit that an option gives. -/
def limitOf (flag : Flag) (value : String) : Except UsageError Nat :=
  match Number.readInt? value with
  | none => .error (.notWhole (optionName flag) value)
  | some n => if 1 ≤ n then .ok n.toNat else .error (.notPositive (optionName flag) n)

/-- What is wrong with the value of an option. -/
def checkValue (given : List (Given Flag)) (flag : Flag) : Except UsageError Unit :=
  match flag, lastValue given flag with
  | .output, some word =>
    match formOf? word with
    | some _ => .ok ()
    | none => .error (.notAChoice "--output" word ["tree", "json"])
  | .maxLength, some value => (limitOf .maxLength value).map fun _ => ()
  | .maxDepth, some value => (limitOf .maxDepth value).map fun _ => ()
  | _, _ => .ok ()

/-- The limit that an option gives, if it is given. -/
def givenLimit (given : List (Given Flag)) (flag : Flag) : Option Nat :=
  (lastValue given flag).bind fun value => (limitOf flag value).toOption

/-- Whether an option is given. -/
def isGiven (given : List (Given Flag)) (flag : Flag) : Bool :=
  given.any fun g => g.option == flag

/-- The settings of checked options. -/
def settingsOf (given : List (Given Flag)) : Settings where
  style :=
    { form := if isGiven given .json then .json
        else ((lastValue given .output).bind formOf?).getD .tree
      quiet := isGiven given .quiet }
  verbosity := (given.filter fun g => g.option == .verbose).length
  maxLength := givenLimit given .maxLength
  maxDepth := givenLimit given .maxDepth

/-- The settings before the command, and the command with its arguments. -/
def readSettings (libraries : Libraries) (arguments : List String) :
    Except Interruption (Settings × List String) := do
  let (given, rest) ← (libraries.split specs false arguments).mapError .usage
  match eager? given with
  | some interruption => throw interruption
  | none =>
    for g in given do
      (checkValue given g.option).mapError .usage
    return (settingsOf given, rest)

/-- The commands, one for each language. -/
def commands : List Mode := [.filter, .path]

/-- The command of a name. -/
def commandOf? (name : String) : Option Mode := commands.find? fun m => m.label == name

/-- A name that is no command. -/
def unknownCommand (name : String) : UsageError :=
  .unknownCommand name (Similar.closest name (commands.map Mode.label))

/-- The expression among the arguments of a command. -/
def readExpression (libraries : Libraries) (arguments : List String) :
    Except Interruption String := do
  let (given, rest) ← (libraries.split helpSpecs true arguments).mapError .usage
  match eager? given with
  | some interruption => throw interruption
  | none =>
    match rest with
    | [] => throw (.usage (.missingArgument "EXPRESSION"))
    | [expression] => return expression
    | _ :: extra => throw (.usage (.extraArguments extra))

/-- Reads an expression of a language. -/
def read (mode : Mode) (limits : Limits) (expression : String) : Traced (Option Node) :=
  match mode with
  | .filter => Filter.read limits expression
  | .path => Path.read limits expression

/-- The data of a report on a tree. -/
def dataOf (n : Node) : List (String × Json) :=
  [("ast", n.toJson), ("attributes", .array (n.attributes.map .string))]

/-- The report on a tree. -/
def success (mode : Mode) (expression : String) (n : Option Node) : Report :=
  ⟨true, mode.label, expression, n.map dataOf, none⟩

/-- The report on a problem. -/
def failure (mode : Mode) (expression : String) (f : Failure) : Report :=
  ⟨false, mode.label, expression, none, some ⟨f.type, f.message, f.scimType, f.details⟩⟩

/-- The report on the result of reading, with the exit code. -/
def report (mode : Mode) (expression : String) :
    Except Failed (Option Node) → Except Invalid (Nat × Report)
  | .ok n => .ok (0, success mode expression n)
  | .error e =>
    match e.refusal mode expression with
    | .problem p => .ok (p.failure.exitCode, failure mode expression p.failure)
    | .invalid e => .error e

/-- A line of the notes. -/
def logLine (text : String) : String := "DEBUG scimfilter.parser: " ++ text ++ "\n"

/-- Whether the text keeps the limits and has no tokens. -/
def isEmpty (mode : Mode) (limits : Limits) (expression : String) : Bool :=
  match limits.start mode expression with
  | .ok c => !c.hasNext
  | .error _ => false

/-- The notes of a command: the expression, whether it is empty, and the paths that are renamed. -/
def log (mode : Mode) (limits : Limits) (expression : String) (renamed : List AttributePath) :
    String :=
  logLine ("Parsing SCIM " ++ mode.label ++ " " ++ Text.quoted expression) ++
    (if isEmpty mode limits expression then logLine ("SCIM " ++ mode.label ++ " is empty")
      else "") ++
    String.join (renamed.map fun p =>
      logLine ("Rewrote value path comparison to '" ++ p.fullName ++ "'"))

/-- Runs a command on an expression. -/
def execute (libraries : Libraries) (settings : Settings) (mode : Mode) (limits : Limits)
    (expression : String) : Outcome :=
  let traced := read mode limits expression
  let notes := if 2 ≤ settings.verbosity then log mode limits expression traced.renamed else ""
  match report mode expression traced.result with
  | .error e => .stopped e
  | .ok (exitCode, r) =>
    match r.render settings.style libraries.writer with
    | .error e => .undrawable e
    | .ok screen => .finished exitCode { screen with errors := notes ++ screen.errors }

/-- The limits of the environment, unless an option gives another one. -/
def limitsFor (settings : Settings) (limits : Limits) : Limits :=
  ⟨settings.maxLength.or limits.maxLength, settings.maxDepth.or limits.maxDepth⟩

/-- What interrupts the reading of options, for the program or for one of its commands. -/
def Interruption.outcome (command : Option Mode) : Interruption → Outcome
  | usage e => .usage e
  | help => .help command
  | version => .version

/-- Runs the named command with its arguments. -/
def runNamed (libraries : Libraries) (environment : String → Option String) (settings : Settings)
    (mode : Mode) (arguments : List String) : Outcome :=
  match Limits.ofEnvironment environment libraries.limits with
  | .error p => .usage (.configuration p.message)
  | .ok limits =>
    match readExpression libraries arguments with
    | .error interruption => interruption.outcome (some mode)
    | .ok expression => execute libraries settings mode (limitsFor settings limits) expression

/-- What is done for a name that is no command: one that looks like an option is read as one. -/
def runUnknown (libraries : Libraries) (name : String) (arguments : List String) : Outcome :=
  if isOption name then
    match readSettings libraries (name :: arguments) with
    | .error interruption => interruption.outcome none
    | .ok _ => .usage (unknownCommand name)
  else .usage (unknownCommand name)

/-- What the program does for its arguments.  Without a command it shows how it is used. -/
def run (environment : String → Option String) (arguments : List String)
    (libraries : Libraries := .standard) : Outcome :=
  match readSettings libraries arguments with
  | .error interruption => interruption.outcome none
  | .ok (_, []) => .help none
  | .ok (settings, name :: arguments) =>
    match commandOf? name with
    | some mode => runNamed libraries environment settings mode arguments
    | none => runUnknown libraries name arguments

end Command

end Scim
