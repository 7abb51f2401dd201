import Scim.Limits.Fields

/-!
# Reports

What a command says about an expression.

* `Report`              the command, its input, and the data or the error that it gave;
* `Report.ofFields`     a report from named fields, or every error in them, in the order of the
                        fields of a report; fields of other names are ignored;
* `Report.ofJson`       the same from a value;
* `Report.nestsTooDeep` whether the data or the details are too deep to be written;
* `Report.toJson`       a report as a JSON value; doubles that are no number become null there.
-/

namespace Scim

open Number (Double)

/-- The error of a report. -/
structure ReportError where
  type : String
  message : String
  scimType : Option String
  details : Option (List (String × Json))

/-- What a command says about an expression. -/
structure Report where
  ok : Bool
  command : String
  input : String
  data : Option (List (String × Json))
  error : Option ReportError

namespace Report

/-- A value, or the errors on the way to it. -/
abbrev Checked := Except (List FieldError)

/-- The errors of a value that cannot be taken. -/
def faults {α : Type} : Checked α → List FieldError
  | .ok _ => []
  | .error es => es

/-- A field that must be there. -/
def required {α : Type} (name : String) (read : Json → Except FieldError.Cause α)
    (fields : List (String × Json)) : Checked α :=
  match Json.lookup name fields with
  | some value => (read value).mapError fun cause => [⟨[name], cause⟩]
  | none => .error [⟨[name], .missing⟩]

/-- A field that may be absent or null, under the first of its names that is there. -/
def optional {α : Type} (names : List String) (read : Json → Except FieldError.Cause α)
    (fields : List (String × Json)) : Checked (Option α) :=
  match names.findSome? fun name => (Json.lookup name fields).map fun value => (name, value) with
  | none => .ok none
  | some (_, .null) => .ok none
  | some (name, value) => ((read value).map some).mapError fun cause => [⟨[name], cause⟩]

/-- The words for a truth value, in lower case. -/
def truthWords : List (String × Bool) :=
  [("true", true), ("t", true), ("yes", true), ("y", true), ("on", true), ("1", true),
    ("false", false), ("f", false), ("no", false), ("n", false), ("off", false), ("0", false)]

/-- The truth value that a word in any case gives. -/
def boolOfText (s : String) : Except FieldError.Cause Bool :=
  let word := s.toList.map Text.lowerAscii
  match truthWords.find? fun w => w.1.toList == word with
  | some w => .ok w.2
  | none => .error .unreadableBoolean

/-- The truth value that a number within 64 bits gives: one and zero do. -/
def boolOfInt (n : Int) : Except FieldError.Cause Bool :=
  if n = 1 then .ok true
  else if n = 0 then .ok false
  else if -Number.wordBound ≤ n ∧ n < Number.wordBound then .error .unreadableBoolean
  else .error .notBoolean

/-- The truth value that a field gives: words and whole numbers are taken as well. -/
def readBool : Json → Except FieldError.Cause Bool
  | .bool b => .ok b
  | .int n => boolOfInt n
  | .string s => boolOfText s
  | .double x =>
    match readWholeDouble x with
    | .ok n => boolOfInt n
    | .error _ => .error .notBoolean
  | _ => .error .notBoolean

/-- A text. -/
def readText : Json → Except FieldError.Cause String
  | .string s => .ok s
  | _ => .error .notText

/-- Named fields. -/
def readFields : Json → Except FieldError.Cause (List (String × Json))
  | .object fields => .ok fields
  | _ => .error .notFields

/-- The error of a report from named fields. -/
def errorOfFields (fields : List (String × Json)) : Checked ReportError :=
  let type := required "type" readText fields
  let message := required "message" readText fields
  let scimType := optional ["scimType", "scim_type"] readText fields
  let details := optional ["details"] readFields fields
  match type, message, scimType, details with
  | .ok t, .ok m, .ok s, .ok d => .ok ⟨t, m, s, d⟩
  | _, _, _, _ => .error (faults type ++ faults message ++ faults scimType ++ faults details)

/-- The error of a report, if it has one. -/
def readError : Option Json → Checked (Option ReportError)
  | none => .ok none
  | some .null => .ok none
  | some (.object fields) =>
    ((errorOfFields fields).map some).mapError
      (·.map fun e => { e with location := "error" :: e.location })
  | some _ => .error [⟨["error"], .notObject "ErrorInfo"⟩]

/-- A report from named fields. -/
def ofFields (fields : List (String × Json)) : Checked Report :=
  let ok := required "ok" readBool fields
  let command := required "command" readText fields
  let input := required "input" readText fields
  let data := optional ["data"] readFields fields
  let error := readError (Json.lookup "error" fields)
  match ok, command, input, data, error with
  | .ok o, .ok c, .ok i, .ok d, .ok e => .ok ⟨o, c, i, d, e⟩
  | _, _, _, _, _ =>
    .error (faults ok ++ faults command ++ faults input ++ faults data ++ faults error)

/-- A report from a value, which must be an object. -/
def ofJson (j : Json) : Checked Report :=
  match j with
  | .object fields => ofFields fields
  | _ => .error [⟨[], .notObject "CommandResult"⟩]

/-- Whether a value in the data or in the details is deeper than the deepest that is written. -/
def nestsTooDeep (r : Report) (deepest : Nat) : Bool :=
  let details := r.error.bind ReportError.details
  decide (deepest < max (Json.depthOfFields (r.data.getD []))
    (Json.depthOfFields (details.getD [])))

/-- Named fields, or null. -/
def objectOf : Option (List (String × Json)) → Json
  | some fields => .object fields
  | none => .null

/-- The error of a report as a JSON value. -/
def errorToJson (e : ReportError) : Json :=
  .object [("type", .string e.type), ("message", .string e.message),
    ("scimType", .ofString? e.scimType), ("details", objectOf e.details)]

end Report

namespace Json

mutual

/-- A value in which every double that is no number is null. -/
def finiteOnly : Json → Json
  | .double (.finite negative m e) => .double (.finite negative m e)
  | .double _ => .null
  | .array items => .array (finiteItems items)
  | .object fields => .object (finiteFields fields)
  | j => j

/-- The items of a list without such doubles. -/
def finiteItems : List Json → List Json
  | [] => []
  | j :: items => j.finiteOnly :: finiteItems items

/-- The fields of an object without such doubles. -/
def finiteFields : List (String × Json) → List (String × Json)
  | [] => []
  | (k, v) :: fields => (k, v.finiteOnly) :: finiteFields fields

end

end Json

/-- A report as a JSON value. -/
def Report.toJson (r : Report) : Json :=
  .object [("ok", .bool r.ok), ("command", .string r.command), ("input", .string r.input),
    ("data", (Report.objectOf r.data).finiteOnly),
    ("error", (match r.error with
      | some e => Report.errorToJson e
      | none => .null).finiteOnly)]

end Scim
