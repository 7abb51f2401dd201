import Scim.Tree.Invalid

/-!
# Attribute paths

* `AttributePath`             an optional schema and the names below it;
* `AttributePath.make`        refuses a path without a name;
* `AttributePath.name`        the names joined by dots;
* `AttributePath.fullName`    the name after its schema and a colon;
* `AttributePath.ofText`      reads a full name: the schema ends at the last colon, and dots part
                              the names after it;
* `AttributePath.under`       a path read inside the brackets on an attribute: the names go below
                              those of the attribute, whose schema replaces the schema of the path.
-/

namespace Scim

/-- An optional schema and the names below it. -/
structure AttributePath where
  schema : Option String
  names : List String
  deriving DecidableEq, Repr, Inhabited

namespace AttributePath

/-- A path of at least one name. -/
def make (schema : Option String) (names : List String) : Except Invalid AttributePath :=
  if names.isEmpty then .error .noName else .ok ⟨schema, names⟩

/-- The names joined by dots. -/
def name (p : AttributePath) : String := ".".intercalate p.names

/-- The name after its schema and a colon; a missing or empty schema is left out. -/
def fullName (p : AttributePath) : String :=
  match p.schema with
  | none => p.name
  | some schema => if schema.isEmpty then p.name else schema ++ ":" ++ p.name

/-- The path with one more name at its end. -/
def append (p : AttributePath) (name : String) : AttributePath :=
  { p with names := p.names ++ [name] }

/-- The path seen from inside the brackets on `outer`. -/
def under (outer p : AttributePath) : AttributePath := ⟨outer.schema, outer.names ++ p.names⟩

/-- The parts of a text between the characters `mark`; a text without one is a single part. -/
def partsAt (mark : Char) : List Char → List (List Char)
  | [] => [[]]
  | c :: cs =>
    if c = mark then [] :: partsAt mark cs
    else
      match partsAt mark cs with
      | [] => [[c]]
      | part :: parts => (c :: part) :: parts

/-- The text before and the text after the last colon, if there is one. -/
def splitLastColon : List Char → Option (List Char × List Char)
  | [] => none
  | c :: cs =>
    match splitLastColon cs with
    | some (schema, name) => some (c :: schema, name)
    | none => if c = ':' then some ([], cs) else none

/-- Reads a full name. -/
def ofText (text : List Char) : Except Invalid AttributePath :=
  match splitLastColon text with
  | some (schema, name) => make (some (String.ofList schema)) ((partsAt '.' name).map String.ofList)
  | none => make none ((partsAt '.' text).map String.ofList)

end AttributePath

end Scim
