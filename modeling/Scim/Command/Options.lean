import Scim.Command.Similar
import Scim.Text.Quoted

/-!
# Options and arguments

* `Option.Spec`          the names of an option, and whether it takes a value;
* `UsageError`           what is wrong with the arguments of a command;
* `splitOptions`         the options among the arguments, in order, and the other arguments.

A long option may carry its value behind an equals sign; letters of short options may be written
together.  After `--` no argument is an option.
-/

namespace Scim.Command

open Text (quoted)

/-- What is wrong with the arguments of a command. -/
inductive UsageError where
  | missingArgument (name : String)
  | extraArguments (arguments : List String)
  | unknownCommand (name : String) (similar : List String)
  | unknownOption (name : String) (similar : List String)
  | missingValue (option : String)
  | unwantedValue (option : String)
  | notAChoice (option value : String) (choices : List String)
  | notWhole (option value : String)
  | notPositive (option : String) (value : Int)
  | configuration (message : String)
  deriving DecidableEq, Repr

namespace UsageError

/-- The words that offer similar names. -/
def offer : List String → String
  | [] => ""
  | [name] => " Did you mean " ++ quoted name ++ "?"
  | names => " (Did you mean one of: " ++ ", ".intercalate (names.map quoted) ++ "?)"

/-- The words for a usage error. -/
def message : UsageError → String
  | missingArgument name => "Missing argument " ++ quoted name ++ "."
  | extraArguments arguments =>
    "Got unexpected extra argument" ++ (if arguments.length = 1 then "" else "s") ++ " (" ++
      " ".intercalate arguments ++ ")"
  | unknownCommand name similar => "No such command " ++ quoted name ++ "." ++ offer similar
  | unknownOption name similar => "No such option " ++ quoted name ++ "." ++ offer similar
  | missingValue option => "Option " ++ quoted option ++ " requires an argument."
  | unwantedValue option => "Option " ++ quoted option ++ " does not take a value."
  | notAChoice option value choices =>
    "Invalid value for " ++ quoted option ++ ": " ++ quoted value ++ " is not one of " ++
      ", ".intercalate (choices.map quoted) ++ "."
  | notWhole option value =>
    "Invalid value for " ++ quoted option ++ ": " ++ quoted value ++
      " is not a valid integer range."
  | notPositive option value =>
    "Invalid value for " ++ quoted option ++ ": " ++ toString value ++
      " is not in the range x>=1."
  | configuration message => message

end UsageError

/-- The names of an option, the long ones in full and the short ones by their letters. -/
structure Spec (α : Type) where
  option : α
  long : List String
  short : List Char
  takesValue : Bool

/-- An option as it was given, with its value if it takes one. -/
structure Given (α : Type) where
  option : α
  value : Option String

variable {α : Type}

/-- The option of a long name. -/
def long? (specs : List (Spec α)) (name : String) : Option (Spec α) :=
  specs.find? fun s => s.long.contains name

/-- The option of a letter. -/
def short? (specs : List (Spec α)) (letter : Char) : Option (Spec α) :=
  specs.find? fun s => s.short.contains letter

/-- All long names. -/
def longNames (specs : List (Spec α)) : List String := specs.flatMap Spec.long

/-- Letters of short options; none of them takes a value. -/
def givenLetters (specs : List (Spec α)) : List Char → Except UsageError (List (Given α))
  | [] => .ok []
  | letter :: letters =>
    match short? specs letter with
    | some s => (givenLetters specs letters).map (⟨s.option, none⟩ :: ·)
    | none => .error (.unknownOption (String.ofList ['-', letter]) [])

/-- The name of an argument before an equals sign, and the value behind it. -/
def nameAndValue (argument : String) : String × Option String :=
  let cs := argument.toList
  match cs.dropWhile (· != '=') with
  | [] => (argument, none)
  | _ :: value => (String.ofList (cs.takeWhile (· != '=')), some (String.ofList value))

/-- Whether an argument has the shape of an option. -/
def isOption (argument : String) : Bool :=
  match argument.toList with
  | '-' :: _ :: _ => true
  | _ => false

/-- What an argument of the shape of an option gives. -/
inductive Reading (α : Type) where
  | done (given : List (Given α))
  /-- The value of the option is the next argument. -/
  | wantsValue (option : α) (name : String)

/-- Reads an argument of the shape of an option. -/
def readOption (specs : List (Spec α)) (argument : String) : Except UsageError (Reading α) :=
  let (name, value) := nameAndValue argument
  match long? specs name with
  | some s =>
    match s.takesValue, value with
    | true, some v => .ok (.done [⟨s.option, some v⟩])
    | true, none => .ok (.wantsValue s.option name)
    | false, none => .ok (.done [⟨s.option, none⟩])
    | false, some _ => .error (.unwantedValue name)
  | none =>
    match argument.toList with
    | '-' :: '-' :: _ => .error (.unknownOption name (Similar.closest name (longNames specs)))
    | _ :: letters => (givenLetters specs letters).map .done
    | [] => .ok (.done [])

/-- The options among the arguments, and the other arguments.  Unless options may follow other
arguments, the first other argument ends them. -/
def splitOptions (specs : List (Spec α)) (interspersed : Bool) :
    List String → Except UsageError (List (Given α) × List String)
  | [] => .ok ([], [])
  | argument :: rest =>
    if argument = "--" then .ok ([], rest)
    else if isOption argument then do
      match ← readOption specs argument with
      | .done given =>
        let (more, others) ← splitOptions specs interspersed rest
        return (given ++ more, others)
      | .wantsValue option name =>
        match rest with
        | [] => throw (.missingValue name)
        | value :: rest =>
          let (more, others) ← splitOptions specs interspersed rest
          return (⟨option, some value⟩ :: more, others)
    else if interspersed then do
      let (given, others) ← splitOptions specs interspersed rest
      return (given, argument :: others)
    else .ok ([], argument :: rest)

end Scim.Command
