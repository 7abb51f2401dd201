import Scim.Json.Basic
import Scim.Number.Shortest
import Scim.Text.Quoted

/-!
# Values in words

How a value is put into a message or a label.

* `Shape`              the seven shapes of a value, and the words for them;
* `Json.wording`       a value in words: a string stands for itself;
* `Json.wordingText`   a value inside another one: there a string is quoted.

Null and the truth values are capitalised words, and the items of lists and objects are separated by
a comma and a space.
-/

namespace Scim.Json

/-- The shapes of a value. -/
inductive Shape where
  | null
  | bool
  | int
  | double
  | string
  | array
  | object
  deriving DecidableEq, Repr

/-- The word for a shape. -/
def Shape.word : Shape → String
  | null => "NoneType"
  | bool => "bool"
  | int => "int"
  | double => "float"
  | string => "str"
  | array => "list"
  | object => "dict"

/-- The shape of a value. -/
def shape : Json → Shape
  | .null => .null
  | .bool _ => .bool
  | .int _ => .int
  | .double _ => .double
  | .string _ => .string
  | .array _ => .array
  | .object _ => .object

mutual

/-- A value inside another one. -/
def wordingText : Json → String
  | .null => "None"
  | .bool b => if b then "True" else "False"
  | .int n => toString n
  | .double x => x.text
  | .string s => Text.quoted s
  | .array items => "[" ++ ", ".intercalate (wordingItems items) ++ "]"
  | .object fields => "\x7b" ++ ", ".intercalate (wordingFields fields) ++ "\x7d"

/-- The items of a list. -/
def wordingItems : List Json → List String
  | [] => []
  | v :: items => wordingText v :: wordingItems items

/-- The fields of an object. -/
def wordingFields : List (String × Json) → List String
  | [] => []
  | (k, v) :: fields => (Text.quoted k ++ ": " ++ wordingText v) :: wordingFields fields

end

/-- A value in words. -/
def wording : Json → String
  | .string s => s
  | j => wordingText j

end Scim.Json
