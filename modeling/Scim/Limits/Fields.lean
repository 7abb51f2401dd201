import Scim.Json.Basic
import Scim.Limits.Basic
import Scim.Number.Plain

/-!
# Limits from fields

* `FieldError`           a field that cannot be taken, and why;
* `readWhole`            the whole number that a field gives: text, truth values and doubles without
                         a fraction are taken as well;
* `Limits.ofFields`      limits from named fields, or every error in them: first those of the two
                         limits, then the fields of other names in their order;
* `Limits.ofJson`        the same from a value.
-/

namespace Scim

open Number (Double)

/-- Why a field cannot be taken. -/
inductive FieldError.Cause where
  | missing
  | extraField
  | notPositive
  | notNumeric
  | unreadable
  | tooLarge
  | fractional
  | notFinite
  | notBoolean
  | unreadableBoolean
  | notText
  | notFields
  | notObject (title : String)
  deriving DecidableEq, Repr

/-- A field that cannot be taken: the way to it, and why. -/
structure FieldError where
  location : List String
  cause : FieldError.Cause
  deriving DecidableEq, Repr

namespace FieldError

/-- The name of a cause. -/
def Cause.code : Cause → String
  | missing => "missing"
  | extraField => "extra_forbidden"
  | notPositive => "greater_than_equal"
  | notNumeric => "int_type"
  | unreadable => "int_parsing"
  | tooLarge => "int_parsing_size"
  | fractional => "int_from_float"
  | notFinite => "finite_number"
  | notBoolean => "bool_type"
  | unreadableBoolean => "bool_parsing"
  | notText => "string_type"
  | notFields => "dict_type"
  | notObject _ => "model_type"

/-- The words for a cause. -/
def Cause.message : Cause → String
  | missing => "Field required"
  | extraField => "Extra inputs are not permitted"
  | notPositive => "Input should be greater than or equal to 1"
  | notNumeric => "Input should be a valid integer"
  | unreadable => "Input should be a valid integer, unable to parse string as an integer"
  | tooLarge =>
    "Unable to parse input string as an integer, exceeded maximum size"
  | fractional => "Input should be a valid integer, got a number with a fractional part"
  | notFinite => "Input should be a finite number"
  | notBoolean => "Input should be a valid boolean"
  | unreadableBoolean => "Input should be a valid boolean, unable to interpret input"
  | notText => "Input should be a valid string"
  | notFields => "Input should be a valid dictionary"
  | notObject title => "Input should be a valid dictionary or instance of " ++ title

/-- The words for an error. -/
def message (e : FieldError) : String := e.cause.message

end FieldError

/-- Why a field with a text that gives no whole number cannot be taken. -/
def FieldError.Cause.ofNoNumber : Number.NoNumber → FieldError.Cause
  | .malformed => .unreadable
  | .tooLong => .tooLarge

/-- The whole number that a double is, if it is within 64 bits. -/
def readWholeDouble (x : Double) : Except FieldError.Cause Int :=
  match x with
  | .finite _ _ _ =>
    match x.toInt? with
    | some n => if -Number.wordBound < n ∧ n < Number.wordBound then .ok n else .error .tooLarge
    | none => .error .fractional
  | _ => .error .notFinite

/-- The whole number that a field gives. -/
def readWhole : Json → Except FieldError.Cause Int
  | .int n => .ok n
  | .bool b => .ok (if b then 1 else 0)
  | .double x => readWholeDouble x
  | .string s => (Number.readLoose s.toList).mapError .ofNoNumber
  | _ => .error .notNumeric

namespace Limits

/-- The limit that a field gives: null is no limit, an absent field leaves the default. -/
def field (default : Option Nat) : Option Json → Except FieldError.Cause (Option Nat)
  | none => .ok default
  | some .null => .ok none
  | some value =>
    match readWhole value with
    | .ok n => if 1 ≤ n then .ok (some n.toNat) else .error .notPositive
    | .error cause => .error cause

/-- The names of the two limits. -/
def fieldNames : List String := ["max_length", "max_depth"]

/-- The error of a field, if it has one. -/
def errors {α : Type} (name : String) : Except FieldError.Cause α → List FieldError
  | .ok _ => []
  | .error cause => [⟨[name], cause⟩]

/-- Limits from named fields. -/
def ofFields (fields : List (String × Json)) : Except (List FieldError) Limits :=
  let length := field ({} : Limits).maxLength (Json.lookup "max_length" fields)
  let depth := field ({} : Limits).maxDepth (Json.lookup "max_depth" fields)
  let extra := (fields.map Prod.fst).filter (!fieldNames.contains ·)
  match length, depth, extra with
  | .ok l, .ok d, [] => .ok ⟨l, d⟩
  | _, _, _ =>
    .error (errors "max_length" length ++ errors "max_depth" depth ++
      extra.map fun name => ⟨[name], .extraField⟩)

/-- Limits from a value, which must be an object. -/
def ofJson (j : Json) : Except (List FieldError) Limits :=
  match j with
  | .object fields => ofFields fields
  | _ => .error [⟨[], .notObject "ParserSettings"⟩]

end Limits

end Scim
