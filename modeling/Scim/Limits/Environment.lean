import Scim.Limits.Fields

/-!
# Limits from the environment

An unset or blank variable leaves the default, the word `none` removes the limit, and any other text
must write a positive whole number.

* `Setting`                  the limit that a variable asks for;
* `Limits.ofEnvironment`     the limits of an environment; a text that is no number is reported
                             before a number that is not positive, and the length before the depth.
-/

namespace Scim

/-- The variable for the largest length. -/
def lengthVariable : String := "SCIM_FILTER_MAX_LENGTH"

/-- The variable for the largest depth. -/
def depthVariable : String := "SCIM_FILTER_MAX_DEPTH"

/-- What a variable asks for. -/
inductive Setting where
  | keepDefault
  | unlimited
  | limit (n : Int)
  deriving DecidableEq, Repr

/-- The setting of a variable, or its text without blanks if that says nothing. -/
def Setting.ofText (value : Option String) : Except String Setting :=
  let text := Text.strip (value.getD "")
  if text.isEmpty then .ok .keepDefault
  else if text.toList.map Text.lowerAscii = ['n', 'o', 'n', 'e'] then .ok .unlimited
  else
    match Number.readInt? text with
    | some n => .ok (.limit n)
    | none => .error text

/-- A setting as a field. -/
def Setting.field (name : String) : Setting → List (String × Json)
  | keepDefault => []
  | unlimited => [(name, .null)]
  | limit n => [(name, .int n)]

namespace Limits

/-- The problem with a variable whose text is no number. -/
def variableProblem (name text : String) : Problem :=
  .make .configuration ("Invalid " ++ name ++ " '" ++ text ++
    "'. Expected a positive integer or 'none'.")

/-- The problem with a field. -/
def fieldProblem (e : FieldError) : Problem :=
  .make .configuration ("Invalid parser setting " ++ ".".intercalate e.location ++ ": " ++
    e.message)

/-- The setting of a variable. -/
def setting (environment : String → Option String) (name : String) :
    Except Problem Setting :=
  (Setting.ofText (environment name)).mapError (variableProblem name)

/-- The limits of an environment; `check` gives limits from named fields. -/
def ofEnvironment (environment : String → Option String)
    (check : List (String × Json) → Except (List FieldError) Limits := ofFields) :
    Except Problem Limits := do
  let length ← setting environment lengthVariable
  let depth ← setting environment depthVariable
  match check (length.field "max_length" ++ depth.field "max_depth") with
  | .ok limits => return limits
  | .error (e :: _) => throw (fieldProblem e)
  | .error [] => return {}

end Limits

end Scim
