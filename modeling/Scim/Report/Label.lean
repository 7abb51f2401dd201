import Scim.Json.Printer
import Scim.Json.Wording

/-!
# Labels

The labels of a tree that is given as a JSON value.

* `Undrawable`         why a report cannot be drawn;
* `Label.field`        a field of a part of the tree;
* `Label.path`         the full name of an attribute path;
* `Label.ofType`       the label of a part of the given type.

A value that should be a text and is none is put in words, where the label only quotes it.  A list
of names may also be a text, which stands for its characters, or an object, which stands for its
keys.
-/

namespace Scim

/-- Why a report cannot be drawn. -/
inductive Undrawable where
  /-- A part of the tree is of an unknown type. -/
  | unknownType (type : String)
  /-- A part of the tree lacks a field. -/
  | missingField (name : String)
  /-- A part of the tree is no object. -/
  | notAnObject (shape : Json.Shape)
  /-- The children of a connective are a value without parts. -/
  | noChildren (shape : Json.Shape)
  /-- The names of a path are a value without parts. -/
  | noNames
  /-- One of the names of a path is no text. -/
  | nameNotText (index : Nat) (shape : Json.Shape)
  /-- An operator is no text. -/
  | operatorNotText
  /-- The position of an error is no whole number. -/
  | positionNotWhole (shape : Json.Shape)
  /-- The position of an error takes more than 64 bits. -/
  | positionTooLarge
  /-- The caret would stand beyond the longest line. -/
  | noRoom
  /-- The data or the details nest too deep to be written. -/
  | tooDeep
  /-- A failed command gives no error. -/
  | noError
  deriving DecidableEq, Repr

/-- The words for it. -/
def Undrawable.message : Undrawable → String
  | unknownType type => "Unknown node type '" ++ type ++ "'."
  | missingField name => "'" ++ name ++ "'"
  | notAnObject .array => "list indices must be integers or slices, not str"
  | notAnObject .string => "string indices must be integers, not 'str'"
  | notAnObject shape => "'" ++ shape.word ++ "' object is not subscriptable"
  | noChildren shape => "'" ++ shape.word ++ "' object is not iterable"
  | noNames => "can only join an iterable"
  | nameNotText index shape =>
    "sequence item " ++ toString index ++ ": expected str instance, " ++ shape.word ++ " found"
  | operatorNotText => "Only str or Text can be appended to Text"
  | positionNotWhole shape =>
    "can't multiply sequence by non-int of type '" ++ shape.word ++ "'"
  | positionTooLarge => "cannot fit 'int' into an index-sized integer"
  | noRoom => ""
  -- the words of the serializer change from version to version; these are the ones of 2.14
  | tooDeep => "Error serializing to JSON: ValueError: Maximum serialization depth exceeded"
  | noError => ""

namespace Label

/-- A field of a part of the tree. -/
def field (name : String) (j : Json) : Except Undrawable Json :=
  match j with
  | .object fields =>
    match Json.lookup name fields with
    | some value => .ok value
    | none => .error (.missingField name)
  | j => .error (.notAnObject j.shape)

/-- The texts of a list whose first item is at the given index. -/
def textsFrom (index : Nat) : List Json → Except Undrawable (List String)
  | [] => .ok []
  | .string s :: items => (textsFrom (index + 1) items).map (s :: ·)
  | j :: _ => .error (.nameNotText index j.shape)

/-- The dotted name that a list of names gives. -/
def dotted (names : Json) : Except Undrawable String :=
  match names.parts? with
  | some items => (textsFrom 0 items).map ".".intercalate
  | none => .error .noNames

/-- A field put in words between two texts; nothing if the field is absent or says nothing. -/
def quote (before name after : String) (j : Json) : String :=
  match j.field? name with
  | some value => if value.isVoid then "" else before ++ value.wording ++ after
  | none => ""

/-- The full name of an attribute path. -/
def path (j : Json) : Except Undrawable String := do
  let name ← dotted (← field "names" j)
  return quote "" "schema" ":" j ++ name

/-- The label of a comparison: presence takes no value. -/
def comparison (j : Json) : Except Undrawable String := do
  let name ← path (← field "path" j)
  match ← field "operator" j with
  | .string "pr" => return name ++ " pr"
  | .string operator =>
    return name ++ " " ++ operator ++ " " ++ (← field "value" j).inline
  | _ => throw .operatorNotText

/-- The label of a value path, with its sub-attribute if it has one. -/
def valuePath (j : Json) : Except Undrawable String := do
  let name ← path (← field "path" j)
  return "value path " ++ name ++ quote "." "sub_attribute" "" j

/-- The label of a part of the given type. -/
def ofType (type j : Json) : Except Undrawable String :=
  match type with
  | .string "attribute_path" => (path j).map ("attribute " ++ ·)
  | .string "comparison" => comparison j
  | .string "negation" => .ok "not"
  | .string "conjunction" => .ok "and"
  | .string "disjunction" => .ok "or"
  | .string "value_path" => valuePath j
  | type => .error (.unknownType type.wording)

end Label

end Scim
