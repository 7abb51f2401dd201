import Scim.Tree.Attribute
import Scim.Json.Basic
import Scim.Text.Lowercase

/-!
# Comparisons

* `Operator`             the ten comparison operators;
* `Value`                what an attribute is compared with;
* `Value.same`           equality of values: numbers and truth values compare as numbers;
* `Comparison`           an attribute, an operator and a value;
* `Comparison.make`      finds the operator of a word in any case.
-/

namespace Scim

open Number (Double)

/-- The comparison operators. -/
inductive Operator where
  | eq | ne | co | sw | ew | gt | lt | ge | le
  /-- The attribute is present; it takes no value. -/
  | pr
  deriving DecidableEq, Repr, Inhabited

namespace Operator

/-- The word of an operator. -/
def word : Operator → String
  | eq => "eq"
  | ne => "ne"
  | co => "co"
  | sw => "sw"
  | ew => "ew"
  | gt => "gt"
  | lt => "lt"
  | ge => "ge"
  | le => "le"
  | pr => "pr"

/-- All operators, by their words in alphabetical order. -/
def all : List Operator := [co, eq, ew, ge, gt, le, lt, ne, pr, sw]

/-- The operator of a word in any case. -/
def ofWord? (w : String) : Option Operator :=
  all.find? fun o => decide (o.word.toList = w.toList.map Text.lowerAscii)

end Operator

/-- What an attribute is compared with. -/
inductive Value where
  | null
  | bool (b : Bool)
  | int (n : Int)
  | double (x : Double)
  | string (s : String)
  deriving DecidableEq, Repr, Inhabited

namespace Value

/-- A value as a JSON value. -/
def toJson : Value → Json
  | null => .null
  | bool b => .bool b
  | int n => .int n
  | double x => .double x
  | string s => .string s

/-- The comparison value that a JSON value is; lists and objects are none. -/
def ofJson? : Json → Option Value
  | .null => some null
  | .bool b => some (bool b)
  | .int n => some (int n)
  | .double x => some (double x)
  | .string s => some (string s)
  | _ => none

/-- The finite number that a value stands for: a truth value stands for one or zero. -/
def dyadic? : Value → Option Dyadic
  | bool b => some (.ofIntWithPrec (if b then 1 else 0) 0)
  | int n => some (.ofIntWithPrec n 0)
  | double x => x.dyadic?
  | _ => none

/-- Equality of values. -/
def same : Value → Value → Bool
  | null, null => true
  | string s, string t => s == t
  | double x, double y => x.same y
  | a, b =>
    match a.dyadic?, b.dyadic? with
    | some x, some y => decide (x = y)
    | _, _ => false

end Value

/-- An attribute, an operator and a value. -/
structure Comparison where
  path : AttributePath
  operator : Operator
  value : Value
  deriving DecidableEq, Repr, Inhabited

namespace Comparison

/-- A comparison with the operator of the given word. -/
def make (path : AttributePath) (word : String) (value : Value) : Except Invalid Comparison :=
  match Operator.ofWord? word with
  | some operator => .ok ⟨path, operator, value⟩
  | none => .error (.unknownOperator (Text.lowercase word))

/-- Whether the comparison asks for presence only. -/
def isPresence (c : Comparison) : Bool := c.operator == .pr

/-- Equality up to equality of values. -/
def same (c d : Comparison) : Bool :=
  c.path == d.path && c.operator == d.operator && c.value.same d.value

end Comparison

end Scim
