import Scim.Report.Basic
import Scim.Report.Writer

/-!
# Reports on the screen

* `Screen`            what is written to the two output streams;
* `Style`             the form of the output, and whether only the essential is written;
* `Report.render`     a report as JSON, or as a drawing with messages on the error stream.

A message about a place in the input is followed by the input and a caret below that place.  Data or
details that nest too deep are not written as JSON.
-/

namespace Scim

/-- What is written to the output and to the error stream. -/
structure Screen where
  output : String
  errors : String
  deriving DecidableEq, Repr, Inhabited

/-- The forms of output. -/
inductive Form where
  | tree
  | json
  deriving DecidableEq, Repr, Inhabited

/-- The words for the forms. -/
def Form.word : Form → String
  | tree => "tree"
  | json => "json"

/-- The form of the output, and whether only the essential is written. -/
structure Style where
  form : Form
  quiet : Bool
  deriving DecidableEq, Repr

namespace Report

/-- No line holds as many characters as this. -/
def lineCapacity : Int := 0x800000000000

/-- The place of the error in the input, if the details give one; a place before the input is its
start. -/
def position (e : ReportError) : Except Undrawable (Option Nat) :=
  match Json.lookup "position" (e.details.getD []) with
  | none => .ok none
  | some .null => .ok none
  | some (.bool b) => .ok (some (if b then 1 else 0))
  | some (.int n) =>
    if n < -Number.wordBound ∨ Number.wordBound ≤ n then .error .positionTooLarge
    else if lineCapacity ≤ n then .error .noRoom
    else .ok (some n.toNat)
  | some j => .error (.positionNotWhole j.shape)

section
variable (writer : Writer)

/-- The input, and a caret below the given place. -/
def caretLines (input : String) (position : Nat) : List Char :=
  writer.coded (' ' :: ' ' :: input.toList) ++
    writer.coded (' ' :: ' ' :: List.replicate position ' ' ++ ['^'])

/-- The messages about an error. -/
def errorLines (quiet : Bool) (input : String) (e : ReportError) :
    Except Undrawable (List Char) := do
  let message := writer.text ("Error: ".toList ++ e.message.toList)
  if quiet then return message
  match ← position e with
  | some position => return message ++ caretLines writer input position
  | none => return message

/-- The drawing of the tree in the data of a report. -/
def drawing (data : List (String × Json)) : Except Undrawable (List Char) := do
  let tree ← Outline.ofJson (← Label.field "ast" (.object data))
  return writer.drawing tree

end

/-- A report on the screen. -/
def render (style : Style) (r : Report) (writer : Writer := .standard) :
    Except Undrawable Screen :=
  match style.form with
  | .json =>
    if r.nestsTooDeep writer.deepest then .error .tooDeep else .ok ⟨r.toJson.pretty ++ "\n", ""⟩
  | .tree =>
    if r.ok then
      match r.data with
      | none => .ok ⟨"", if style.quiet then "" else "Empty expression.\n"⟩
      | some data => (drawing writer data).map fun d => ⟨String.ofList d, ""⟩
    else
      match r.error with
      | none => .error .noError
      | some e =>
        (errorLines writer style.quiet r.input e).map fun lines => ⟨"", String.ofList lines⟩

end Report

end Scim
